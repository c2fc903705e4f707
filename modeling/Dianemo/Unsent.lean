import Dianemo.HandleRequest

namespace Dianemo

open JsNumber Resumption

/-- What an attempt did and was told: a call and its reply. -/
abbrev AttemptEvent := Answered RequestCall RequestReply RequestFailure

namespace AttemptEvent

/-- The attempt is admitted: at once, or as one of its listeners is told. -/
def admits : AttemptEvent → Bool
  | ⟨.tryAdmitImmediately _, .ok (admitted, _)⟩ => admitted
  | ⟨.heard, .ok (some (.ready _))⟩ => true
  | ⟨.readyPromise, .ok (.ready _)⟩ => true
  | _ => false

def sends : AttemptEvent → Bool
  | ⟨.httpRequest _, _⟩ => true
  | _ => false

def releases : AttemptEvent → Bool
  | ⟨.releaseUnusedAdmission _, _⟩ => true
  | _ => false

end AttemptEvent

/-- How far an attempt has come. -/
structure AttemptStage where
  admitted : Bool
  sent : Bool
  released : ℕ

def AttemptStage.start : AttemptStage := ⟨false, false, 0⟩

def AttemptStage.next (g : AttemptStage) (e : AttemptEvent) : AttemptStage :=
  ⟨g.admitted || e.admits, g.sent || e.sends, g.released + if e.releases then 1 else 0⟩

/-- Budget is handed back once, for an attempt that was admitted and not sent. -/
def admissionProtocol : Protocol RequestCall RequestReply RequestFailure AttemptStage where
  allows g
    | .releaseUnusedAdmission _ => g.admitted = true ∧ g.sent = false ∧ g.released = 0
    | .httpRequest _ => g.released = 0
    | _ => True
  answers _ _ _ := True
  next g c reply := g.next ⟨c, reply⟩

namespace RequestCall

/-- Neither a dispatch nor a hand-back. -/
def isQuiet : RequestCall → Bool
  | .releaseUnusedAdmission _ => false
  | .httpRequest _ => false
  | _ => true

end RequestCall

namespace HandleRequest

variable {g : AttemptStage} {request : Request} {c : RequestCall} {α β : Type}

theorem quiet_allowed (quiet : c.isQuiet = true) : admissionProtocol.allows g c := by
  cases c <;> trivial

theorem quiet_next (quiet : c.isQuiet = true) (reply : Except RequestFailure (RequestReply c)) :
    (g.next ⟨c, reply⟩).sent = g.sent ∧ (g.next ⟨c, reply⟩).released = g.released ∧
      (g.admitted = true → (g.next ⟨c, reply⟩).admitted = true) := by
  refine ⟨?_, ?_, fun admitted => by simp [AttemptStage.next, admitted]⟩
  · cases c <;> first | (cases quiet; done) | simp [AttemptStage.next, AttemptEvent.sends]
  · cases c <;> first | (cases quiet; done) | simp [AttemptStage.next, AttemptEvent.releases]

theorem conforms_ask {Q : Except RequestFailure (RequestReply c) → Request → AttemptStage → Prop} :
    (ask c).Conforms admissionProtocol Q g request ↔
      admissionProtocol.allows g c ∧ ∀ reply, Q reply request (g.next ⟨c, reply⟩) := by
  simp only [ask, Act.conforms_call]
  exact and_congr_right fun _ => forall_congr' fun reply => ⟨fun holds => holds trivial, fun holds _ => holds⟩

theorem conforms_tryAsk {Q : Except RequestFailure (Option (RequestReply c)) → Request → AttemptStage → Prop} :
    (tryAsk c).Conforms admissionProtocol Q g request ↔
      admissionProtocol.allows g c ∧ ∀ reply, Q (.ok reply.toOption) request (g.next ⟨c, reply⟩) := by
  simp only [tryAsk, Act.conforms_attempt]
  exact and_congr_right fun _ => forall_congr' fun reply => ⟨fun holds => holds trivial, fun holds _ => holds⟩

theorem conforms_reply
    {Q : Except RequestFailure (Except RequestFailure (RequestReply c)) → Request → AttemptStage → Prop} :
    (reply c).Conforms admissionProtocol Q g request ↔
      admissionProtocol.allows g c ∧ ∀ reply, Q (.ok reply) request (g.next ⟨c, reply⟩) := by
  simp only [reply, Act.conforms_tryCatch, Act.conforms_bind, conforms_ask]
  refine and_congr_right fun _ => forall_congr' fun answer => ?_
  cases answer <;> simp

/-- Neither sends nor hands back, whatever it is told. -/
def Idle (x : Sending α) : Prop := ∀ g request, x.Conforms admissionProtocol (fun _ _ _ => True) g request

theorem Idle.pure (a : α) : Idle (pure a : Sending α) := fun _ _ => trivial

theorem Idle.throw (e : RequestFailure) : Idle (throw e : Sending α) := fun _ _ => trivial

theorem Idle.locals : Idle (Act.locals : Sending Request) := fun _ _ => trivial

theorem Idle.update (f : Request → Request) : Idle (Act.update f : Sending Unit) := fun _ _ => trivial

theorem Idle.bind {x : Sending α} {f : α → Sending β} (first : Idle x)
    (rest : ∀ a, Idle (f a)) : Idle (x >>= f) := by
  intro g request
  rw [Act.conforms_bind]
  refine (first g request).mono ?_
  rintro out request' g' -
  cases out with
  | ok a => exact rest a g' request'
  | error e => trivial

theorem Idle.ask (quiet : c.isQuiet = true) : Idle (ask c) :=
  fun _ _ => conforms_ask.mpr ⟨quiet_allowed quiet, fun _ => trivial⟩

theorem Idle.tryAsk (quiet : c.isQuiet = true) : Idle (tryAsk c) :=
  fun _ _ => conforms_tryAsk.mpr ⟨quiet_allowed quiet, fun _ => trivial⟩

theorem Idle.provided {condition : Bool} {x : Sending Unit} (idle : Idle x) : Idle (provided condition x) := by
  unfold HandleRequest.provided
  split
  · exact idle
  · exact .pure _

theorem publishAbandoned_idle (message : String) : Idle (publishAbandoned message) :=
  .bind .locals fun _ => .bind (.tryAsk rfl) fun _ => .bind (.tryAsk rfl) fun _ => .pure _

theorem announce_idle (data : RequestDoneData) (tries : ℕ) : Idle (announce data tries) := by
  induction tries with
  | zero => exact .pure _
  | succ tries ih =>
    refine .bind (.tryAsk rfl) fun published => ?_
    cases published with
    | some _ => exact .pure _
    | none => exact ih

theorem publishRequestDone_idle (data : RequestDoneData) : Idle (publishRequestDone data) :=
  .bind (announce_idle data 3) fun _ => .bind (.tryAsk rfl) fun _ => .pure _

theorem runSettle_idle : Idle runSettle := by
  refine .bind .locals fun request => .provided (.bind (.tryAsk rfl) fun settled => ?_)
  split
  · exact .bind (.tryAsk rfl) fun _ => .pure _
  · exact .pure _

section Errors

variable (sender : Sender) (error : RequestFailure)

theorem classifyError_idle : Idle (classifyError sender error) := by
  unfold classifyError
  split
  · exact .bind (.tryAsk rfl) fun _ => .pure _
  · exact .pure _

theorem classify_idle (outOfRetries : Bool) : Idle (classify sender error outOfRetries) := by
  refine .bind (classifyError_idle sender error) fun decision => ?_
  split
  · exact .pure _
  · exact .pure _
  · exact .pure _
  · split
    · exact .pure _
    · split
      · refine .bind (.tryAsk rfl) fun wanted => ?_
        split <;> exact .pure _
      · exact .pure _

theorem handleRetry_idle : Idle (handleRetry sender error) := by
  refine .bind .locals fun request => .bind (classify_idle sender error _) fun classified => ?_
  dsimp only
  split
  · exact .bind (.update _) fun _ => .pure _
  · exact .pure _

theorem handleError_idle : Idle (handleError sender error) := by
  refine .bind runSettle_idle fun _ => .bind (handleRetry_idle sender error) fun retryData =>
    .bind .locals fun request => ?_
  refine .bind (.provided (.ask rfl)) fun _ => .bind (publishRequestDone_idle _) fun _ => ?_
  split
  · exact .pure _
  · exact .throw _

end Errors

theorem handleResponse_idle (response : Response) : Idle (handleResponse response) :=
  .bind runSettle_idle fun _ => .bind .locals fun _ => .bind (publishRequestDone_idle _) fun _ =>
    .bind (.tryAsk rfl) fun _ => .pure _

theorem handleStreamedResponse_idle (response : Response) : Idle (handleStreamedResponse response) :=
  .bind .locals fun _ => .bind (.provided (publishRequestDone_idle _)) fun _ => .bind (.tryAsk rfl) fun _ =>
    .bind (.tryAsk rfl) fun _ => .pure _

/-- Before its dispatch an attempt has handed nothing back, and is in progress only if admitted. -/
structure Before (request : Request) (g : AttemptStage) : Prop where
  unsent : g.sent = false
  kept : g.released = 0
  admitted : request.status = .inProgress → g.admitted = true

/-- An attempt that has failed before its dispatch: what it still owes was admitted to it. -/
structure Owed (request : Request) (g : AttemptStage) : Prop where
  unsent : g.sent = false
  admitted : request.status = .inProgress → g.admitted = true ∧ g.released = 0

theorem Before.owed (before : Before request g) : Owed request g :=
  ⟨before.unsent, fun status => ⟨before.admitted status, before.kept⟩⟩

theorem Before.next (before : Before request g) (quiet : c.isQuiet = true)
    (reply : Except RequestFailure (RequestReply c)) : Before request (g.next ⟨c, reply⟩) := by
  obtain ⟨sent, released, admitted⟩ := quiet_next (g := g) quiet reply
  exact ⟨sent.trans before.unsent, released.trans before.kept, fun status => admitted (before.admitted status)⟩

/-- Neither sends nor hands back, and leaves the request as it is. -/
def Asks (x : Sending α) : Prop := ∀ g request, Before request g →
  x.Conforms admissionProtocol (fun _ request' g' => request' = request ∧ Before request g' ∧
    (g.admitted = true → g'.admitted = true)) g request

/-- Neither sends nor hands back, and is in progress only once admitted. -/
def Waits (x : Sending α) : Prop :=
  ∀ g request, Before request g → x.Conforms admissionProtocol (fun _ request' g' => Before request' g') g request

theorem Asks.pure (a : α) : Asks (pure a : Sending α) := fun _ _ before => ⟨rfl, before, id⟩

theorem Asks.throw (e : RequestFailure) : Asks (throw e : Sending α) := fun _ _ before => ⟨rfl, before, id⟩

theorem Asks.locals : Asks (Act.locals : Sending Request) := fun _ _ before => ⟨rfl, before, id⟩

theorem Asks.bind {x : Sending α} {f : α → Sending β} (first : Asks x)
    (rest : ∀ a, Asks (f a)) : Asks (x >>= f) := by
  intro g request before
  rw [Act.conforms_bind]
  refine (first g request before).mono ?_
  rintro out request' g' ⟨rfl, before', grows⟩
  cases out with
  | ok a =>
    refine (rest a g' request' before').mono ?_
    rintro out request'' g'' ⟨rfl, before'', grows'⟩
    exact ⟨rfl, before'', fun admitted => grows' (grows admitted)⟩
  | error e => exact ⟨rfl, before', grows⟩

theorem Asks.ask (quiet : c.isQuiet = true) : Asks (ask c) := fun _ _ before =>
  conforms_ask.mpr ⟨quiet_allowed quiet, fun reply => ⟨rfl, before.next quiet reply, (quiet_next quiet reply).2.2⟩⟩

theorem Asks.tryAsk (quiet : c.isQuiet = true) : Asks (tryAsk c) := fun _ _ before =>
  conforms_tryAsk.mpr ⟨quiet_allowed quiet, fun reply =>
    ⟨rfl, before.next quiet reply, (quiet_next quiet reply).2.2⟩⟩

theorem Asks.reply (quiet : c.isQuiet = true) : Asks (reply c) := fun _ _ before =>
  conforms_reply.mpr ⟨quiet_allowed quiet, fun reply =>
    ⟨rfl, before.next quiet reply, (quiet_next quiet reply).2.2⟩⟩

theorem Asks.waits {x : Sending α} (asks : Asks x) : Waits x := by
  intro g request before
  refine (asks g request before).mono ?_
  rintro out request' g' ⟨rfl, before', -⟩
  exact before'

theorem Waits.update {f : Request → Request} (same : ∀ request, (f request).status = request.status) :
    Waits (Act.update f : Sending Unit) :=
  fun _ request before => ⟨before.unsent, before.kept,
    fun status => before.admitted ((same request).symm.trans status)⟩

theorem Waits.bind {x : Sending α} {f : α → Sending β} (first : Waits x)
    (rest : ∀ a, Waits (f a)) : Waits (x >>= f) := by
  intro g request before
  rw [Act.conforms_bind]
  refine (first g request before).mono ?_
  rintro out request' g' before'
  cases out with
  | ok a => exact rest a g' request' before'
  | error e => exact before'

theorem Waits.provided {condition : Bool} {x : Sending Unit} (waits : Waits x) : Waits (provided condition x) := by
  unfold HandleRequest.provided
  split
  · exact waits
  · exact (Asks.pure _).waits

theorem throwIf_asks (failed : Bool) (error : RequestFailure) : Asks (throwIf failed error) := by
  unfold throwIf
  split
  · exact .throw _
  · exact .pure _

theorem aborted_asks : Asks aborted := .bind (.tryAsk rfl) fun _ => .pure _

theorem assertGoesOn_asks : Asks assertGoesOn :=
  .bind aborted_asks fun _ => .bind (throwIf_asks _ _) fun _ =>
      .bind (.bind (.tryAsk rfl) fun _ => .pure _) fun _ =>
    throwIf_asks _ _

theorem publishAbandoned_asks (message : String) : Asks (publishAbandoned message) :=
  .bind .locals fun _ => .bind (.tryAsk rfl) fun _ => .bind (.tryAsk rfl) fun _ => .pure _

/-- A wait that fails tells so, and is marked as announced. -/
theorem gaveUp_waits (message : String) (error : RequestFailure) :
    Waits (do
      publishAbandoned message
      Act.update fun request => { request with abandonmentPublished := true }
      return Except.error error : Sending (Except RequestFailure Unit)) :=
  .bind (publishAbandoned_asks message).waits fun _ => .bind (.update fun _ => rfl) fun _ => (Asks.pure _).waits

/-- A listener that is told of its admission has been admitted. -/
theorem onHeard_before {heard : Heard} (before : Before request g)
    (told : ∀ metadata, heard = .ready metadata → g.admitted = true) :
    (onHeard heard).Conforms admissionProtocol (fun _ request' g' => Before request' g') g request := by
  cases heard with
  | ready metadata =>
    simp only [onHeard, Act.conforms_bind, Act.conforms_update]
    exact ⟨before.unsent, before.kept, fun _ => told metadata rfl⟩
  | aborted => exact gaveUp_waits _ _ g request before
  | timedOut => exact gaveUp_waits _ _ g request before
  | failed error => exact before

theorem listen_waits (settled : Option (Except RequestFailure Unit)) : Waits (listen settled) := by
  cases settled with
  | some settled => exact (Asks.pure _).waits
  | none =>
    intro g request before
    simp only [listen, Act.conforms_bind]
    refine conforms_tryAsk.mpr ⟨trivial, ?_⟩
    intro reply
    have after := before.next (c := .heard) rfl reply
    rcases reply with error | (_ | heard)
    · exact after
    · exact after
    · simp only [Except.toOption, Act.conforms_bind]
      refine (onHeard_before after ?_).mono ?_
      · rintro metadata rfl
        simp [AttemptStage.next, AttemptEvent.admits]
      · rintro out request' g' after'
        cases out <;> exact after'

theorem whileListening_waits (quiet : c.isQuiet = true) (settled : Option (Except RequestFailure Unit)) :
    Waits (whileListening c settled) := by
  refine .bind (Asks.reply quiet).waits fun replied => .bind (listen_waits settled) fun settled => ?_
  cases replied with
  | ok answer => exact (Asks.pure _).waits
  | error error => exact (Asks.throw _).waits

theorem readyPromise_waits (settled : Option (Except RequestFailure Unit)) : Waits (readyPromise settled) := by
  have settles : Waits (settle settled) := by
    cases settled with
    | some settled => exact (Asks.pure _).waits
    | none =>
      intro g request before
      simp only [settle, Act.conforms_bind]
      refine conforms_ask.mpr ⟨trivial, ?_⟩
      intro reply
      have after := before.next (c := .readyPromise) rfl reply
      cases reply with
      | error error => exact after
      | ok heard =>
        refine onHeard_before after ?_
        rintro metadata rfl
        simp [AttemptStage.next, AttemptEvent.admits]
  refine .bind settles fun outcome => ?_
  cases outcome with
  | ok _ => exact (Asks.pure _).waits
  | error error => exact (Asks.throw _).waits

theorem waitForTurn_waits (metadata : AttemptMetadata) : Waits (waitForTurn metadata) := by
  refine .bind Asks.locals.waits fun request => .bind (whileListening_waits rfl _) fun added => ?_
  dsimp only
  split
  · exact .bind (whileListening_waits rfl _) fun _ =>
      .bind (whileListening_waits rfl _) fun _ => readyPromise_waits _
  · exact readyPromise_waits _

/-- A wait that is over has admitted the attempt; one that has failed owes no more than was admitted. -/
def BeforeOrOwed {α : Type} (out : Except RequestFailure α) (request : Request) (g : AttemptStage) : Prop :=
  match out with
  | .ok _ => Before request g
  | .error _ => Owed request g

theorem Waits.settles {x : Sending α} (waits : Waits x) (before : Before request g) :
    x.Conforms admissionProtocol BeforeOrOwed g request := by
  refine (waits g request before).mono ?_
  rintro out request' g' before
  cases out with
  | ok a => exact before
  | error e => exact before.owed

theorem waitForRequestReady_settled (before : Before request g) (queued : request.status = .inQueue) :
    waitForRequestReady.Conforms admissionProtocol BeforeOrOwed g request := by
  simp only [waitForRequestReady, Act.conforms_bind, Act.conforms_update, Act.conforms_locals]
  have cleared : Before { request with fastPath := false, claimedKeys := none } g :=
    ⟨before.unsent, before.kept, before.admitted⟩
  refine (assertGoesOn_asks g _ cleared).mono ?_
  rintro out request' g' ⟨rfl, before, -⟩
  cases out with
  | error error => exact before.owed
  | ok _ =>
    refine conforms_ask.mpr ⟨trivial, ?_⟩
    intro reply
    have answered := before.next (c := .tryAdmitImmediately _) rfl reply
    cases reply with
    | error error => exact answered.owed
    | ok admission =>
      simp only
      refine (aborted_asks _ _ answered).mono ?_
      rintro out request' g'' ⟨rfl, before, grows⟩
      cases out with
      | error error => exact before.owed
      | ok gone =>
        by_cases admits : admission.1 = true
        · have admitted : g''.admitted = true := grows (by simp [AttemptStage.next, AttemptEvent.admits, admits])
          simp only [if_pos admits]
          cases gone with
          | true =>
            simp only [if_true, Act.conforms_bind]
            refine conforms_tryAsk.mpr ⟨⟨admitted, before.unsent, before.kept⟩, ?_⟩
            intro reply
            refine ⟨by simpa [AttemptStage.next, AttemptEvent.sends] using before.unsent, fun status => ?_⟩
            rw [queued] at status
            cases status
          | false => exact ⟨before.unsent, before.kept, fun _ => admitted⟩
        · simp only [if_neg admits]
          exact Waits.settles (.bind (throwIf_asks _ _).waits fun _ => waitForTurn_waits _) before

/-- A wait that may have handed back what it was given, then steps that do not. -/
theorem settled_bind {x : Sending α} {f : α → Sending β}
    (first : x.Conforms admissionProtocol BeforeOrOwed g request) (rest : ∀ a, Waits (f a)) :
    (x >>= f).Conforms admissionProtocol BeforeOrOwed g request := by
  rw [Act.conforms_bind]
  refine first.mono ?_
  rintro out request' g' settled
  cases out with
  | error e => exact settled
  | ok a => exact (rest a).settles settled

theorem intercept_waits (sender : Sender) : Waits (intercept sender) :=
  .provided (.bind Asks.locals.waits fun _ => .bind (Asks.ask rfl).waits fun _ => .update fun _ => rfl)

theorem beforeDispatch_settled (sender : Sender) (backoffMs : JsNumber) (before : Before request g)
    (queued : request.status = .inQueue) :
    (beforeDispatch sender backoffMs).Conforms admissionProtocol BeforeOrOwed g request := by
  have backsOff : Asks (provided (0 < backoffMs) (waitOutBackoff backoffMs)) := by
    unfold provided
    split
    · exact .bind assertGoesOn_asks fun _ => .ask rfl
    · exact .pure _
  rw [beforeDispatch, Act.conforms_bind]
  refine (backsOff g request before).mono ?_
  rintro out request' g' ⟨rfl, before, -⟩
  cases out with
  | error e => exact before.owed
  | ok _ =>
    refine settled_bind ?_ fun _ => assertGoesOn_asks.waits
    refine settled_bind (waitForRequestReady_settled before queued) fun _ =>
      .bind (intercept_waits sender) fun _ => ?_
    exact .bind Asks.locals.waits fun _ => (Asks.ask rfl).waits

/-- What was admitted to a failed attempt goes back once. -/
theorem releaseAbandonedRequest_conforms (owed : Owed request g) :
    releaseAbandonedRequest.Conforms admissionProtocol (fun _ _ _ => True) g request := by
  simp only [releaseAbandonedRequest, Act.conforms_bind, Act.conforms_locals]
  cases request.abandonmentPublished with
  | true => trivial
  | false =>
    simp only [provided, Bool.not_false, if_true, Act.conforms_bind, Act.conforms_update]
    split
    · rename_i status
      have status : request.status = .inProgress := of_decide_eq_true status
      simp only [Act.conforms_bind]
      obtain ⟨admitted, kept⟩ := owed.admitted status
      refine conforms_tryAsk.mpr ⟨⟨admitted, owed.unsent, kept⟩, ?_⟩
      exact fun reply => publishAbandoned_idle _ _ _
    · exact publishAbandoned_idle _ _ _

theorem dispatch_conforms (sender : Sender) (kept : g.released = 0) :
    (dispatch sender).Conforms admissionProtocol (fun _ _ _ => True) g request := by
  simp only [dispatch, Act.conforms_bind, Act.conforms_locals]
  refine conforms_reply.mpr ⟨kept, ?_⟩
  intro reply
  cases reply with
  | error error => exact (Idle.bind (handleError_idle sender error) fun _ => .pure _) _ _
  | ok response =>
    simp only
    split
    · exact (Idle.bind (handleStreamedResponse_idle response) fun _ => .pure _) _ _
    · exact (Idle.bind (handleResponse_idle response) fun _ => .pure _) _ _

/-- A round hands back only what it was given and did not send, whatever the rounds before it left. -/
theorem round_conforms (sender : Sender) (backoffMs : JsNumber) (request : Request) :
    (round sender backoffMs).Conforms admissionProtocol (fun _ _ _ => True) .start request := by
  simp only [round, Act.conforms_bind, Act.conforms_update, Act.conforms_tryCatch]
  have before : Before { request with status := .inQueue } .start := ⟨rfl, rfl, by simp⟩
  refine (beforeDispatch_settled sender backoffMs before rfl).mono ?_
  rintro out request' g' settled
  cases out with
  | ok _ => exact dispatch_conforms sender settled.kept
  | error error =>
    refine (releaseAbandonedRequest_conforms settled).mono ?_
    rintro out request'' g'' -
    cases out <;> trivial

end HandleRequest

/-- What a `handleRequest` call has done so far, attempt by attempt: a round
that a response failed and that may be tried again is followed by another. -/
inductive HandleRequest.Execution (sender : Sender) : JsNumber → Request → List (List AttemptEvent) → Prop
  | stops {backoffMs : JsNumber} {request : Request} {log : List AttemptEvent} {rest} :
    ((round sender backoffMs).run request).Runs log rest → Execution sender backoffMs request [log]
  | retries {backoffMs waitTime : JsNumber} {request request' : Request} {log : List AttemptEvent}
    {logs : List (List AttemptEvent)} :
    ((round sender backoffMs).run request).Runs log (.done (.ok (some waitTime), request')) →
    .fin request'.retries ≤ sender.maxRetries → Execution sender waitTime request' logs →
    Execution sender backoffMs request (log :: logs)

/-- Budget handed back by an attempt was admitted to it, is handed back once, and was never sent for. -/
def HandedBackUnsent (log : List AttemptEvent) : Prop :=
  log.countP AttemptEvent.releases ≤ 1 ∧
    ∀ e ∈ log, e.releases = true → (∃ admission ∈ log, admission.admits = true) ∧ ∀ sent ∈ log, sent.sends = false

/-- The stage a log leads to counts what is in it. -/
theorem after_start (g : AttemptStage) (log : List AttemptEvent) :
    admissionProtocol.after g log = ⟨g.admitted || log.any AttemptEvent.admits,
      g.sent || log.any AttemptEvent.sends, g.released + log.countP AttemptEvent.releases⟩ := by
  induction log generalizing g with
  | nil => simp [Protocol.after]
  | cons e log ih =>
    refine (ih (g.next e)).trans ?_
    simp [AttemptStage.next, List.countP_cons, Bool.or_assoc, Nat.add_assoc, Nat.add_comm]

/-- Nothing handed back, or once what was admitted and is not sent. -/
def AttemptStage.Fair (g : AttemptStage) : Prop :=
  g.released ≤ 1 ∧ (g.released = 1 → g.admitted = true ∧ g.sent = false)

theorem AttemptStage.Fair.next {g : AttemptStage} {c : RequestCall} (allowed : admissionProtocol.allows g c)
    (reply : Except RequestFailure (RequestReply c)) (fair : g.Fair) : (g.next ⟨c, reply⟩).Fair := by
  by_cases quiet : c.isQuiet = true
  · obtain ⟨sent, released, admitted⟩ := HandleRequest.quiet_next (g := g) quiet reply
    refine ⟨released.trans_le fair.1, fun once => ?_⟩
    obtain ⟨before, unsent⟩ := fair.2 (released.symm.trans once)
    exact ⟨admitted before, sent.trans unsent⟩
  · cases c with
    | releaseUnusedAdmission metadata =>
      obtain ⟨admitted, unsent, none⟩ := allowed
      simp [AttemptStage.Fair, AttemptStage.next, AttemptEvent.sends, AttemptEvent.releases, admitted, unsent, none]
    | httpRequest config =>
      have none : g.released = 0 := allowed
      simp [AttemptStage.Fair, AttemptStage.next, AttemptEvent.releases, none]
    | _ => exact absurd rfl quiet

theorem round_hands_back_unsent {sender : Sender} {backoffMs : JsNumber} {request : Request}
    {log : List AttemptEvent} {rest}
    (runs : ((HandleRequest.round sender backoffMs).run request).Runs log rest) : HandedBackUnsent log := by
  have fair : (admissionProtocol.after .start log).Fair :=
    (HandleRequest.round_conforms sender backoffMs request).runs
      (fun _ _ reply allowed => AttemptStage.Fair.next allowed reply)
      runs (fun _ _ _ => trivial) ⟨Nat.zero_le 1, nofun⟩
  rw [after_start] at fair
  simp only [AttemptStage.Fair, AttemptStage.start, Bool.false_or, Nat.zero_add] at fair
  refine ⟨fair.1, ?_⟩
  intro e mem releases
  have once : log.countP AttemptEvent.releases = 1 :=
    le_antisymm fair.1 (List.countP_pos_iff.mpr ⟨e, mem, releases⟩)
  obtain ⟨admitted, unsent⟩ := fair.2 once
  exact ⟨List.any_eq_true.mp admitted, by simpa using unsent⟩

/-- Every call of `handleRequest`: in each attempt, whatever it is told, budget is handed back at most once, only if it
was admitted, and never if it was sent. -/
theorem budget_returned_unsent (sender : Sender) (request : Request) (logs : List (List AttemptEvent))
    (executed : HandleRequest.Execution sender 0 request logs) : ∀ log ∈ logs, HandedBackUnsent log := by
  generalize (0 : JsNumber) = backoffMs at executed
  induction executed with
  | stops runs =>
    intro log mem
    cases List.mem_singleton.mp mem
    exact round_hands_back_unsent runs
  | retries runs _ _ ih =>
    intro log mem
    rcases List.mem_cons.mp mem with rfl | mem
    · exact round_hands_back_unsent runs
    · exact ih log mem

/-- A client that retries nothing. -/
def Sender.plain : Sender where
  maxRetries := 0
  retry429s := false
  retry5xxs := false
  retryStatusCodes := []
  exponential := false
  hasClassifier := false
  hasRetryHandler := false
  hasInterceptor := false
  getRetryBackoffBaseTime _ := 0
  getFreezeBaseTime _ := 0

def Request.plain : Request where
  id := "r"
  clientName := "c"
  requestName := "get"
  priority := 1
  cost := .amount 1
  explicitCost := none
  timestamp := 0
  ownerId := "i"
  config := ⟨none, false, false, false⟩

/-- Admitted at once, and aborted before the dispatch. -/
def abortedAdmission (left : ℕ) : (c : RequestCall) → Except RequestFailure (RequestReply c)
  | .aborted => .ok (left < 2)
  | .admissionHalted => .ok false
  | .tryAdmitImmediately _ => .ok (true, some ["bucket"])
  | .releaseUnusedAdmission _ => .ok ()
  | _ => .error .noResponse

theorem budget_returned_unsent_aborted :
    (((HandleRequest.round .plain 0).run .plain).log abortedAdmission 5).countP AttemptEvent.releases = 1 ∧
      HandedBackUnsent (((HandleRequest.round .plain 0).run .plain).log abortedAdmission 5) := by
  obtain ⟨rest, runs⟩ := Program.runs_log abortedAdmission 5 ((HandleRequest.round .plain 0).run .plain)
  exact ⟨by decide +kernel, budget_returned_unsent .plain .plain _ (.stops runs) _ List.mem_cons_self⟩

end Dianemo
