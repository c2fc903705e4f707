import Dianemo.Orderly

namespace Dianemo

open JsNumber Resumption

variable {ι : Type}

/-- The call moves an entry, or the pass's hold on one. -/
def Call.moves : Call → Bool
  | .getNextRequest _ _ => true
  | .confirmRequest _ _ => true
  | .updateRequest _ _ => true
  | .requestReady _ => true
  | _ => false

section Calls

variable {q : QueueKeys} {clients : ι → Client} {now : ℚ} {sys : System ι} {i : ι} {c : Call} {s : State}
  {next : Except DrainError (Reply c) → Program Call Reply DrainError (Option PassLocals)}

theorem Call.exec_undisturbed {client : Client} (still : c.moves = false)
    (apart : c.Apart q client now s) (outlook : Outlook) :
    Undisturbed q now s (c.exec q client outlook now s).2 := by
  cases c with
  | getNextRequest => cases still
  | confirmRequest => cases still
  | updateRequest => cases still
  | requestReady => cases still
  | claim budget => exact .of_fewer (fewer_of_item (item_keeps apart))
  | releaseClaim release => exact .of_fewer (fewer_of_item (item_keeps apart))
  | releaseUnusedAdmission release => exact .of_fewer (fewer_of_item (item_keeps apart))
  | removeRequest id => exact .of_fewer (removeRequest_fewer s id _).1
  | tryStartThawRequest id grantId anyGrant =>
    rcases tryStartThawRequest_cases apart s id grantId anyGrant with ⟨-, same⟩ | ⟨h, held, -, items⟩
    · exact .of_fewer (fewer_of_item same)
    · refine undisturbed_update held ?_ ?_ ?_ items <;> simp [withFields, AList.lookup_insert_ne]
  | _ => exact .of_fewer (Fewer.refl q now s)

/-- A call that moves nothing leaves the pass with the same hold. -/
theorem viewAfter_still (v : ClaimView) (still : c.moves = false) (reply : Except DrainError (Reply c)) :
    ∃ v', viewAfter (some v) c reply = some v' ∧ v'.request = v.request ∧
      v'.standing = v.standing ∧ v'.closed = v.closed ∧
      v'.tried = v.tried ∧ v'.published = v.published := by
  cases c <;> cases reply <;> first | exact ⟨_, rfl, rfl, rfl, rfl, rfl, rfl⟩ | cases still

theorem viewAfter_none (still : c.moves = false) (reply : Except DrainError (Reply c)) :
    viewAfter none c reply = none := by
  cases c <;> first | rfl | cases still

theorem Orderly.finish (orderly : Orderly q now sys) (id : String) :
    Orderly q now { sys with record := sys.record.finish id } :=
  { orderly with keeping := fun j v view => (orderly.keeping j v view).frame rfl rfl rfl fun _ _ _ _ => rfl }

/-- Every pass keeps to the protocol from where it stands. -/
def Conformant (sys : System ι) : Prop :=
  ∀ i, (sys.passes i).Conforms drainProtocol (fun _ _ => True) (sys.views i)

theorem Conformant.program (conformant : Conformant sys) (clients : ι → Client) (i : ι) :
    (sys.program clients i).Conforms drainProtocol (fun _ _ => True) (sys.views i) := by
  have all : ∀ {p : Program Call Reply DrainError (Option PassLocals)} {g : Option ClaimView},
      p.Conforms drainProtocol (fun _ _ => True) g ↔
        p.Conforms drainProtocol (fun o _ => ∀ l : PassLocals, o = some l → True) g :=
    ⟨fun conforms => conforms.mono fun _ _ _ _ _ => trivial, fun conforms => conforms.mono fun _ _ _ => trivial⟩
  refine all.mpr (Program.Conforms.unroll (I := fun _ _ => True) ?_ (all.mp (conformant i)))
  intro l g _
  exact all.mp (round_conforms (clients i) l g)

theorem Orderly.answers (orderly : Orderly q now sys) (client : Client) (fate : Fate) (outlook : Outlook) :
    Answers c (if fate = .answered ∨ c.isLocal = true then (c.exec q client outlook now sys.store).1
      else .error .failed) := by
  by_cases told : fate = .answered ∨ c.isLocal = true
  · rw [if_pos told]
    cases c with
    | getNextRequest skipGrantIds skipRequestIds =>
      simp only [Call.exec]
      cases next : nextId q sys.store skipGrantIds skipRequestIds now with
      | none =>
        rw [getNextRequest_of_none next]
        trivial
      | some id =>
        obtain ⟨h, held, -, -, run⟩ := getNextRequest_of_some next
        rw [run]
        cases read : toQueued (withFields h (claimFields h now)) with
        | none => trivial
        | some request =>
          obtain ⟨-, stamp, -⟩ := toQueued_claimFields read (orderly.named id h held)
          simp [Answers, stamp]
    | claim budget => cases out : (budget.exec now sys.store).1 <;> simp [Call.exec, out, Answers, Call.isLocal]
    | releaseClaim release => cases out : (release.exec now sys.store).1 <;>
      simp [Call.exec, out, Answers, Call.isLocal]
    | releaseUnusedAdmission release =>
      cases out : (release.exec now sys.store).1 <;> simp [Call.exec, out, Answers, Call.isLocal]
    | _ => trivial
  · rw [if_neg told]
    have remote : c.isLocal = false := by simpa using (not_or.mp told).2
    cases c <;> exact remote

variable [DecidableEq ι]

/-- What takes effect with a call that moves nothing is at most that a request is finished. -/
theorem Record.after_still (r : Record ι) (still : c.moves = false) (v : Option ClaimView) (outlook : Outlook) :
    r.after q i v outlook now s c = r ∨ ∃ id, r.after q i v outlook now s c = r.finish id := by
  cases c with
  | getNextRequest => cases still
  | confirmRequest => cases still
  | updateRequest => cases still
  | requestReady => cases still
  | removeRequest id => exact .inr ⟨id, rfl⟩
  | failWaitingRequest id =>
    cases failed : outlook.waiterFailed with
    | true => exact .inr ⟨id, by simp [Record.after, failed]⟩
    | false => exact .inl (by simp [Record.after, failed])
  | _ => exact .inl rfl

/-- Whichever way a call that moves nothing comes out. -/
theorem Orderly.call_still (orderly : Orderly q now sys) (still : c.moves = false)
    (apart : c.Apart q (clients i) now sys.store) (fate : Fate) (outlook : Outlook) :
    Orderly q now (sys.call q clients i fate outlook now c next) := by
  have seen : ∀ (reply : Except DrainError (Reply c)) (r : Record ι),
      (∀ v, sys.views i = some v → Keeping r now i v) →
      ∀ v, viewAfter (sys.views i) c reply = some v → Keeping r now i v := by
    intro reply r keeping v view
    cases before : sys.views i with
    | none =>
      rw [before, viewAfter_none still reply] at view
      cases view
    | some w =>
      obtain ⟨v', after, same, standing, closed, tried, published⟩ := viewAfter_still w still reply
      rw [before, after] at view
      cases view
      exact (keeping w before).view same standing closed tried published
  unfold System.call
  dsimp only
  cases took : decide (fate ≠ .failedBefore) || c.isLocal with
  | false =>
    exact (orderly.undisturbed (.of_fewer (.refl q now sys.store)) now).pass
      (seen _ _ fun v view => orderly.keeping i v view)
  | true =>
    have moved := orderly.undisturbed (c.exec_undisturbed still apart outlook) now
    rcases sys.record.after_still still (sys.views i) outlook with same | ⟨id, finished⟩
    · rw [if_pos rfl, if_pos rfl, same]
      exact moved.pass (seen _ _ fun v view => orderly.keeping i v view)
    · rw [if_pos rfl, if_pos rfl, finished]
      exact (moved.finish id).pass (seen _ _ fun v view => (moved.finish id).keeping i v view)

/-- The write-back a pass is about to make, if any, is of a claim it still holds. -/
def Guarded (now : ℚ) (sys : System ι) (i : ι) (fate : Fate) : Call → Prop
  | .updateRequest _ _ => fate ≠ .failedBefore → ∀ v, sys.views i = some v → sys.record.Holding now i v
  | _ => True

theorem Orderly.call_getNextRequest {skipGrantIds skipRequestIds : List String} (orderly : Orderly q now sys)
    {p : Program Call Reply DrainError (Option PassLocals)} {outlook : Outlook}
    {client : Client} {g : Option ClaimView} (reply : Except DrainError (Option QueuedRequest))
    (told : reply = .ok (getNextRequest q sys.store skipGrantIds skipRequestIds now).1 ∨ ∃ e, reply = .error e) :
    Orderly q now
      { store := ((Call.getNextRequest skipGrantIds skipRequestIds).exec q client outlook now sys.store).2
        clock := now
        passes := Function.update sys.passes i p
        views := Function.update sys.views i (viewAfter g (.getNextRequest skipGrantIds skipRequestIds) reply)
        record := sys.record.after q i (sys.views i) outlook now sys.store (.getNextRequest skipGrantIds skipRequestIds) } := by
  simp only [Call.exec, Record.after, viewAfter]
  cases next : nextId q sys.store skipGrantIds skipRequestIds now with
  | none =>
    have nothing : reply.toOption.join = none := by
      rcases told with rfl | ⟨e, rfl⟩
      · rw [getNextRequest_of_none next]
        rfl
      · rfl
    rw [nothing, getNextRequest_of_none next]
    exact orderly.unclaimed
  | some id =>
    obtain ⟨h, held, free, -, run⟩ := getNextRequest_of_some next
    rw [run] at told ⊢
    refine orderly.claim held free ?_
    intro request found
    rcases told with rfl | ⟨e, rfl⟩
    · exact found
    · cases found

theorem Orderly.call_confirmRequest {id : String} {x : ℚ} {v : ClaimView} (orderly : Orderly q now sys)
    (view : sys.views i = some v) (fits : (Call.confirmRequest id x).Fits v)
    {p : Program Call Reply DrainError (Option PassLocals)} {outlook : Outlook} {client : Client}
    (reply : Except DrainError Bool)
    (told : reply = .ok (confirmRequest q sys.store id (fin x) now).1 ∨ ∃ e, reply = .error e) :
    Orderly q now
      { store := ((Call.confirmRequest id x).exec q client outlook now sys.store).2
        clock := now
        passes := Function.update sys.passes i p
        views := Function.update sys.views i (viewAfter (sys.views i) (.confirmRequest id x) reply)
        record := sys.record.after q i (sys.views i) outlook now sys.store (.confirmRequest id x) } := by
  simp only [Call.exec, Record.after]
  rcases confirmRequest_cases q sys.store id x now with run | ⟨h, held, status, stamp, unlapsed, run⟩
  · rw [run, if_neg Bool.false_ne_true]
    refine (orderly.undisturbed (.of_fewer (.refl q now sys.store)) now).pass ?_
    intro w after
    rw [view] at after
    cases after
    have keeping := orderly.keeping i v view
    rcases told with rfl | ⟨e, rfl⟩
    · rw [run]
      exact { keeping with
        unsent := nofun
        confirmed := nofun
        refused := fun _ => (keeping.unsent fits.2.2.1).1 }
    · exact keeping.failed _ e
  · rw [run, if_pos rfl, view]
    rcases told with rfl | ⟨e, rfl⟩
    · rw [run]
      exact orderly.confirm view fits held stamp unlapsed status rfl (.inl rfl)
    · exact orderly.confirm view fits held stamp unlapsed status rfl (.inr rfl)

theorem Orderly.call_updateRequest {id : String} {updates : RequestUpdates} {v : ClaimView}
    (orderly : Orderly q now sys)
    (view : sys.views i = some v) (fits : (Call.updateRequest id updates).Fits v)
    (holding : sys.record.Holding now i v)
    {p : Program Call Reply DrainError (Option PassLocals)} {outlook : Outlook} {client : Client}
    (reply : Except DrainError Unit) :
    Orderly q now
      { store := ((Call.updateRequest id updates).exec q client outlook now sys.store).2
        clock := now
        passes := Function.update sys.passes i p
        views := Function.update sys.views i (viewAfter (sys.views i) (.updateRequest id updates) reply)
        record := sys.record.after q i (sys.views i) outlook now sys.store (.updateRequest id updates) } := by
  simp only [Call.exec, Record.after]
  rw [view]
  cases held : q.item sys.store now id with
  | some h =>
    simp only [Option.isSome_some, if_true]
    cases reply with
    | ok done => exact orderly.writeBack view fits holding held rfl rfl (.inl rfl)
    | error e => exact orderly.writeBack view fits holding held rfl rfl (.inr rfl)
  | none =>
    rw [if_neg (by simp), updateRequest_of_none held]
    refine (orderly.undisturbed (.of_fewer (.refl q now sys.store)) now).pass ?_
    intro w after
    have keeping := orderly.keeping i v view
    cases reply with
    | ok done =>
      cases after
      exact { keeping with unspent := nofun }
    | error e =>
      cases after
      exact keeping.failed _ e

theorem Orderly.call_requestReady {request : RequestMetadata} {v : ClaimView} (orderly : Orderly q now sys)
    (view : sys.views i = some v) (fits : (Call.requestReady request).Fits v)
    {p : Program Call Reply DrainError (Option PassLocals)} {outlook : Outlook} {client : Client}
    (reply : Except DrainError Unit) :
    Orderly q now
      { store := ((Call.requestReady request).exec q client outlook now sys.store).2
        clock := now
        passes := Function.update sys.passes i p
        views := Function.update sys.views i (viewAfter (sys.views i) (.requestReady request) reply)
        record := sys.record.after q i (sys.views i) outlook now sys.store (.requestReady request) } := by
  rw [view]
  cases reply with
  | ok done => exact orderly.handOver view fits _ rfl rfl (.inl rfl)
  | error e => exact orderly.handOver view fits _ rfl rfl (.inr rfl)

theorem Orderly.call (orderly : Orderly q now sys) (apart : c.Apart q (clients i) now sys.store)
    (allows : c.isFree = true ∨ ∃ v, sys.views i = some v ∧ c.Fits v) (fate : Fate) (outlook : Outlook)
    (guarded : Guarded now sys i fate c) : Orderly q now (sys.call q clients i fate outlook now c next) := by
  cases moves : c.moves with
  | false => exact orderly.call_still moves apart fate outlook
  | true =>
    -- a call that fails before it takes effect tells its pass only that
    have failed : fate = .failedBefore → c.isLocal = false →
        Orderly q now (sys.call q clients i fate outlook now c next) := by
      rintro rfl remote
      have quiet : ∀ v, viewAfter (sys.views i) c (.error .failed) = some v → Keeping sys.record now i v := by
        intro v view
        cases c with
        | getNextRequest => cases view
        | _ =>
          obtain ⟨w, before, rfl⟩ := Option.map_eq_some_iff.mp view
          exact (orderly.keeping i w before).failed _ _
      have result :=
        (orderly.undisturbed (.of_fewer (.refl q now sys.store)) now).pass (p := next (.error .failed)) quiet
      simpa [System.call, remote] using result
    by_cases unsent : fate = .failedBefore
    · refine failed unsent ?_
      cases c <;> first | rfl | cases moves
    have took : (decide (fate ≠ .failedBefore) || c.isLocal) = true := by simp [unsent]
    unfold System.call
    dsimp only
    rw [if_pos took, if_pos took]
    cases c with
    | getNextRequest skipGrantIds skipRequestIds =>
      exact orderly.call_getNextRequest _ (by split <;> simp [Call.exec])
    | confirmRequest id x =>
      obtain free | ⟨v, view, fits⟩ := allows
      · cases free
      · exact orderly.call_confirmRequest view fits _ (by split <;> simp [Call.exec])
    | updateRequest id updates =>
      obtain free | ⟨v, view, fits⟩ := allows
      · cases free
      · exact orderly.call_updateRequest view fits (guarded unsent v view) _
    | requestReady request =>
      obtain free | ⟨v, view, fits⟩ := allows
      · cases free
      · exact orderly.call_requestReady view fits _
    | _ => cases moves

theorem Conformant.call (conformant : Conformant sys) (orderly : Orderly q now sys)
    (at_ : sys.program clients i = .call c next) (fate : Fate) (outlook : Outlook) :
    (c.isFree = true ∨ ∃ v, sys.views i = some v ∧ c.Fits v) ∧
      Conformant (sys.call q clients i fate outlook now c next) := by
  have conforms := conformant.program clients i
  rw [at_] at conforms
  refine ⟨conforms.1, ?_⟩
  intro j
  by_cases same : j = i
  · subst same
    simpa [System.call, drainProtocol] using conforms.2 _ (orderly.answers (clients j) fate outlook)
  · simpa [System.call, same] using conformant j

end Calls

section Runs

/-- Nothing is queued. -/
def Bare (q : QueueKeys) (now : ℚ) (s : State) : Prop := ∀ id, q.item s now id = none

variable {q : QueueKeys} {clients : ι → Client} {now t : ℚ} {sys : System ι}

theorem orderly_start {store : State} (bare : Bare q t store) : Orderly q t (System.start clients store t) where
  named id h found := by
    rw [System.start, bare id] at found
    cases found
  used id there := by
    rw [System.start, bare id] at there
    cases there
  reads id h found := by
    rw [System.start, bare id] at found
    cases found
  unused _ _ := rfl
  keeping _ _ := nofun
  handed _ := rfl
  claimant id i x at_ := by
    rcases at_ with at_ | at_ <;> cases at_

/-- Every call made for the claim so far was answered. -/
def ClaimView.Told (v : ClaimView) : Prop := v.standing ≠ .lost ∧ v.tried = false ∧ v.published = false

theorem ClaimView.Told.after {v : ClaimView} (told : v.Told) {c : Call} (outlook : Outlook)
    (client : Client) (s : State) : (v.after c (c.exec q client outlook now s).1).Told := by
  cases c with
  | confirmRequest id x =>
    refine ⟨?_, told.2⟩
    cases confirmed : (confirmRequest q s id (fin x) now).1 <;> simp [Call.exec, ClaimView.after, confirmed]
  | claim budget => cases out : (budget.exec now s).1 <;> simpa [Call.exec, out, ClaimView.after] using told
  | releaseClaim release => cases out : (release.exec now s).1 <;>
    simpa [Call.exec, out, ClaimView.after] using told
  | releaseUnusedAdmission release =>
    cases out : (release.exec now s).1 <;> simpa [Call.exec, out, ClaimView.after] using told
  | _ => exact told

/-- Every pass was answered whatever it asked. -/
def Told (sys : System ι) : Prop := ∀ i v, sys.views i = some v → v.Told

theorem told_start (store : State) : Told (System.start clients store t) := by
  intro i v view
  cases view

theorem conformant_start (store : State) : Conformant (System.start clients store t) :=
  fun i => round_conforms (clients i) {} none

/-- An entry made pending while no pass holds it. -/
theorem Orderly.release (orderly : Orderly q now sys) {id : String} {s : State} {used : List String}
    (idle : ∀ j x, sys.record.phase id ≠ .claimed j x ∧ sys.record.phase id ≠ .confirmed j x)
    (others : ∀ other, other ≠ id → q.item s now other = q.item sys.store now other)
    (own : ∀ h, q.item s now id = some h → h.lookup "requestId" = some (.text id) ∧
      h.lookup "status" = some (.text "pending"))
    (grows : ∀ other ∈ sys.record.used, other ∈ used) (known : id ∈ used) :
    Orderly q now { sys with store := s, clock := now, record := { sys.record.release id with used := used } } := by
  refine orderly.move id .idle others own grows known rfl rfl (fun _ _ => rfl) nofun ?_
  intro j v view
  refine (orderly.keeping j v view).move ?_ ?_ grows rfl rfl rfl
  · intro x claimed
    exact absurd claimed (idle j x).1
  · intro x confirmed
    exact absurd confirmed (idle j x).2

/-- An entry that was handed over is with its owner. -/
theorem Orderly.handed_phase (orderly : Orderly q now sys) {id : String} (handed : 0 < sys.record.handed id) :
    ∃ i, sys.record.phase id = .handed i := by
  rw [orderly.handed] at handed
  cases phase : sys.record.phase id with
  | handed i => exact ⟨i, rfl⟩
  | idle => simp [phase, Phase.count] at handed
  | claimed i x => simp [phase, Phase.count] at handed
  | confirmed i x => simp [phase, Phase.count] at handed

theorem QueuedRequest.fields_status (request : QueuedRequest) (h : Fields) :
    (withFields h request.fields).lookup "status" = some (.text request.status) := by
  cases settled : request.settles <;> simp [QueuedRequest.fields, settled, withFields, AList.lookup_insert_ne]

variable [DecidableEq ι]

/-- What is taken for granted of whatever else reaches the queue: an owner adds
an id first when it is new, and makes one pending again only when the attempt
handed over for it is over; other traffic has keys of its own. -/
def Event.Fair (q : QueueKeys) (clients : ι → Client) (now : ℚ) (sys : System ι) : Event ι → Prop
  | .pass i _ _ => ∀ c next, sys.program clients i = .call c next → c.Apart q (clients i) now sys.store
  | .add request ttl => request.status = "pending" ∧
      (((addRequest q request ttl now).run sys.store).1 = .ok true → request.requestId ∈ sys.record.used →
        0 < sys.record.handed request.requestId ∧
          ∀ a ∈ sys.record.attempts, a.request.requestId ≠ request.requestId)
  | .retry id => 0 < sys.record.handed id ∧ ∀ a ∈ sys.record.attempts, a.request.requestId ≠ id
  | .elsewhere after => Keeps q.keys now sys.store after
  | _ => True

/-- No call of a pass fails. -/
def Event.Answered : Event ι → Prop
  | .pass _ fate _ => fate = .answered
  | _ => True

/-- A write-back that takes effect is of a claim its pass still holds. -/
def Event.Guarded (clients : ι → Client) (now : ℚ) (sys : System ι) : Event ι → Prop
  | .pass i fate _ => ∀ c next, sys.program clients i = .call c next → Dianemo.Guarded now sys i fate c
  | _ => True

/-- Runs of any number of drain passes on one queue, every call answered. -/
def drainRuns (q : QueueKeys) (clients : ι → Client) : Timed.Machine ℚ (System ι) (Event ι) where
  step now e sys := sys.step q clients now e
  allowed now e sys := e.Fair q clients now sys ∧ e.Answered

/-- The same with calls that may fail. -/
def faultyRuns (q : QueueKeys) (clients : ι → Client) : Timed.Machine ℚ (System ι) (Event ι) where
  step now e sys := sys.step q clients now e
  allowed now e sys := e.Fair q clients now sys

/-- The same where every write-back is of a claim still held. -/
def guardedRuns (q : QueueKeys) (clients : ι → Client) : Timed.Machine ℚ (System ι) (Event ι) where
  step now e sys := sys.step q clients now e
  allowed now e sys := e.Fair q clients now sys ∧ e.Guarded clients now sys

/-- Whatever happens next, if write-backs are guarded. -/
theorem Orderly.step (orderly : Orderly q now sys) (conformant : Conformant sys) {e : Event ι}
    (fair : e.Fair q clients now sys) (guarded : e.Guarded clients now sys) :
    Orderly q now (sys.step q clients now e) ∧ Conformant (sys.step q clients now e) := by
  cases e with
  | pass i fate outlook =>
    simp only [System.step]
    cases at_ : sys.program clients i with
    | done out => exact ⟨orderly.undisturbed (.of_fewer (.refl q now sys.store)) now, conformant⟩
    | call c next =>
      obtain ⟨allows, conformant'⟩ := conformant.call orderly at_ fate outlook
      exact ⟨orderly.call (fair c next at_) allows fate outlook (guarded c next at_), conformant'⟩
  | add request ttl =>
    refine ⟨?_, conformant⟩
    obtain ⟨pending, owner⟩ := fair
    simp only [System.step, System.add]
    rcases addRequest_run q request ttl now sys.store with ⟨e, run⟩ | ⟨run, -⟩ |
      ⟨score, seconds, whole, -, absent, run⟩
    · rw [run, if_neg (by simp)]
      exact orderly.undisturbed (.of_fewer (.refl q now sys.store)) now
    · rw [run, if_neg (by simp)]
      exact orderly.undisturbed (.of_fewer (.refl q now sys.store)) now
    · rw [run] at owner ⊢
      rw [if_pos rfl]
      have items : q.item (sys.store.enqueue q request score seconds now) now = _ :=
        item_enqueue_self whole.pos absent
      refine orderly.release ?_ ?_ ?_ (fun _ member => List.mem_cons_of_mem _ member) (List.mem_cons_self ..)
      · intro j x
        by_cases used : request.requestId ∈ sys.record.used
        · obtain ⟨i, handed⟩ := orderly.handed_phase (owner rfl used).1
          rw [handed]
          exact ⟨nofun, nofun⟩
        · rw [orderly.unused _ used]
          exact ⟨nofun, nofun⟩
      · intro other ne
        rw [items, Function.update_of_ne ne]
      · intro h found
        rw [items, Function.update_self] at found
        cases found
        exact ⟨request.fields_requestId ∅, by rw [request.fields_status, pending]⟩
  | recount id retries =>
    refine ⟨?_, conformant⟩
    refine orderly.undisturbed ?_ now
    cases held : q.item sys.store now id with
    | none =>
      rw [updateRequest_of_none held]
      exact .of_fewer (.refl q now sys.store)
    | some h =>
      refine undisturbed_update held ?_ ?_ ?_ (item_updateRequest held (orderly.named id h held) _)
      · exact recount_lookup (by decide) retries h
      · exact recount_lookup (by decide) retries h
      · exact recount_lookup (by decide) retries h
  | retry id =>
    refine ⟨?_, conformant⟩
    simp only [System.step, System.retry]
    obtain ⟨i, handed⟩ := orderly.handed_phase fair.1
    cases held : q.item sys.store now id with
    | none =>
      rw [if_neg (by simp), updateRequest_of_none held]
      exact orderly.undisturbed (.of_fewer (.refl q now sys.store)) now
    | some h =>
      simp only [Option.isSome_some, if_true]
      have items := item_updateRequest held (orderly.named id h held) { status := some "pending" }
      refine orderly.release ?_ ?_ ?_ (fun _ member => member) (orderly.used id (by simp [held]))
      · intro j x
        rw [handed]
        exact ⟨nofun, nofun⟩
      · intro other ne
        rw [items, Function.update_of_ne ne]
      · intro h' found
        rw [items, Function.update_self] at found
        cases found
        rw [← orderly.named id h held]
        simp [RequestUpdates.apply, RequestUpdates.fields, finiteUpdate, withFields, AList.lookup_insert_ne,
          AList.lookup_erase_ne]
  | complete id =>
    refine ⟨?_, conformant⟩
    exact { orderly with keeping := fun j v view =>
      (orderly.keeping j v view).frame rfl rfl rfl fun _ _ _ _ => rfl }
  | free id retries =>
    refine ⟨?_, conformant⟩
    exact { orderly with keeping := fun j v view =>
      (orderly.keeping j v view).frame rfl rfl rfl fun _ _ _ _ => rfl }
  | remove id ttl =>
    exact ⟨(orderly.undisturbed (.of_fewer (removeRequest_fewer sys.store id ttl).1) now).finish id, conformant⟩
  | cleanup alive current =>
    exact ⟨orderly.undisturbed (.of_fewer (cleanupOrphanedRequests_fewer sys.store alive current)) now, conformant⟩
  | elsewhere after => exact ⟨orderly.undisturbed (.of_fewer (fewer_of_item (item_keeps fair))) now, conformant⟩

theorem Told.step (told : Told sys) {e : Event ι} (answered : e.Answered) : Told (sys.step q clients now e) := by
  cases e with
  | pass i fate outlook =>
    simp only [Event.Answered] at answered
    subst answered
    simp only [System.step]
    cases at_ : sys.program clients i with
    | done out => exact told
    | call c next =>
      intro j v view
      by_cases same : j = i
      · subst same
        simp only [System.call, Function.update_self, true_or, if_true] at view
        cases c with
        | getNextRequest =>
          obtain ⟨request, -, rfl⟩ := Option.map_eq_some_iff.mp view
          exact ⟨nofun, rfl, rfl⟩
        | _ =>
          obtain ⟨w, before, rfl⟩ := Option.map_eq_some_iff.mp view
          exact (told j w before).after outlook (clients j) sys.store
      · exact told j v (by simpa [System.call, same] using view)
  | _ => exact told

omit [DecidableEq ι] in
/-- With every call answered, a pass writes back what it holds. -/
theorem Orderly.guarded (orderly : Orderly q now sys) (conformant : Conformant sys)
    (told : Told sys) (e : Event ι) : e.Guarded clients now sys := by
  cases e with
  | pass i fate outlook =>
    intro c next at_
    have conforms := conformant.program clients i
    rw [at_] at conforms
    cases c with
    | updateRequest id updates =>
      intro _ v view
      obtain free | ⟨w, view', -, sent, closed, -⟩ := conforms.1
      · cases free
      · cases view.symm.trans view'
        obtain ⟨found, tried, published⟩ := told i v view
        have keeping := orderly.keeping i v view
        refine ⟨keeping.unspent closed tried published, .inl (keeping.confirmed ?_)⟩
        rcases sent with confirmed | lost
        · exact confirmed
        · exact absurd lost found
    | _ => trivial
  | _ => trivial

/-- A run with every call answered keeps everything in order. -/
theorem drainRuns_orderly {store : State} (bare : Bare q t store) {history : List (ℚ × Event ι)}
    (valid : (drainRuns q clients).Valid t (.start clients store t) history) :
    Orderly q ((drainRuns q clients).clock t history)
      ((drainRuns q clients).final (.start clients store t) history) ∧
      Conformant ((drainRuns q clients).final (.start clients store t) history) ∧
      Told ((drainRuns q clients).final (.start clients store t) history) := by
  refine valid.invariant (I := fun t sys => Orderly q t sys ∧ Conformant sys ∧ Told sys) ?_
    ⟨orderly_start bare, conformant_start store, told_start store⟩
  rintro t now e sys order ⟨fair, answered⟩ ⟨orderly, conformant, told⟩
  have orderly' := orderly.later order
  obtain ⟨after, conformant'⟩ := orderly'.step conformant fair (orderly'.guarded conformant told e)
  exact ⟨after, conformant', told.step answered⟩

/-- Between two events that make an entry pending it is handed over at most once. -/
theorem handed_at_most_once {store : State} (bare : Bare q t store) {history : List (ℚ × Event ι)}
    (valid : (drainRuns q clients).Valid t (.start clients store t) history) (id : String) :
    ((drainRuns q clients).final (.start clients store t) history).record.handed id ≤ 1 := by
  rw [(drainRuns_orderly bare valid).1.handed]
  cases ((drainRuns q clients).final (.start clients store t) history).record.phase id <;> simp [Phase.count]

/-- A pass writes an entry back that another pass was handed since. -/
def Event.overwrites (q : QueueKeys) (clients : ι → Client) (now : ℚ) (sys : System ι) : Event ι → Bool
  | .pass i fate _ =>
    match sys.program clients i with
    | .call (.updateRequest id _) _ =>
      decide (fate ≠ .failedBefore) && (q.item sys.store now id).isSome && decide (sys.record.claimant id ≠ some i)
    | _ => false
  | _ => false

/-- As long as every write-back is of a claim its pass still holds, none is
made over another holder, whatever calls fail. -/
theorem never_overwrites {store : State} (bare : Bare q t store) {history : List (ℚ × Event ι)}
    (valid : (guardedRuns q clients).Valid t (.start clients store t) history) :
    ¬ (guardedRuns q clients).Passes (fun now e sys =>
      e.overwrites q clients now sys = true) (.start clients store t)
      history := by
  refine valid.never (I := fun t sys => Orderly q t sys ∧ Conformant sys) ?_ ?_
    ⟨orderly_start bare, conformant_start store⟩
  · rintro t now e sys order ⟨fair, guarded⟩ ⟨orderly, conformant⟩
    exact (orderly.later order).step conformant fair guarded
  · rintro t now e sys order ⟨fair, guarded⟩ ⟨orderly, conformant⟩ overwrites
    cases e with
    | pass i fate outlook =>
      simp only [Event.overwrites] at overwrites
      split at overwrites
      · rename_i id updates next at_
        simp only [Bool.and_eq_true, decide_eq_true_eq] at overwrites
        obtain ⟨⟨sent, -⟩, stolen⟩ := overwrites
        have conforms := conformant.program clients i
        rw [at_] at conforms
        obtain free | ⟨v, view, rfl, -⟩ := conforms.1
        · cases free
        · have orderly' := orderly.later order
          obtain ⟨x, -, mine⟩ := (orderly'.keeping i v view).holding (guarded _ next at_ sent v view)
          exact stolen (orderly'.claimant _ i x mine)
      · cases overwrites
    | _ => cases overwrites

end Runs

section Tests

/-- The call claims from no budget but the slots at `slotKey`. -/
def Call.contained (slotKey : String) : Call → Bool
  | .claim (.acquireQueuedConcurrency key _ _ _ _) => decide (key = slotKey)
  | .claim _ => false
  | .releaseClaim (.releaseConcurrency key _) => decide (key = slotKey)
  | .releaseClaim _ => false
  | .releaseUnusedAdmission (.releaseConcurrency key _) => decide (key = slotKey)
  | .releaseUnusedAdmission _ => false
  | _ => true

/-- What the passes write to beside the queue has keys of its own. -/
structure Confined (q : QueueKeys) (slotKey : String) (clients : ι → Client) : Prop where
  grants : ∀ i, (clients i).frozenGrantsKey ∉ q.keys
  slots : slotKey ∉ q.keys
  costs : costsKey slotKey ∉ q.keys

/-- A test of fairness, for events that reach nothing but the queue, the frozen grants and the slots. -/
def Event.fair (q : QueueKeys) (slotKey : String) (clients : ι → Client) (now : ℚ) (sys : System ι) : Event ι → Bool
  | .pass i _ _ =>
    match sys.program clients i with
    | .call c _ => c.contained slotKey
    | .done _ => true
  | .add request ttl => decide (request.status = "pending") &&
      (!decide (((addRequest q request ttl now).run sys.store).1 = .ok true) ||
        !decide (request.requestId ∈ sys.record.used) ||
        decide (0 < sys.record.handed request.requestId) &&
          sys.record.attempts.all fun a => decide (a.request.requestId ≠ request.requestId))
  | .retry id => decide (0 < sys.record.handed id) && sys.record.attempts.all fun a =>
    decide (a.request.requestId ≠ id)
  | .elsewhere _ => false
  | _ => true

variable {q : QueueKeys} {slotKey : String} {clients : ι → Client} {now : ℚ} {sys : System ι}

theorem Call.apart_of_contained (confined : Confined q slotKey clients) {i : ι} {s : State} {c : Call}
    (contained : c.contained slotKey = true) : c.Apart q (clients i) now s := by
  have slots := confined.slots
  have costs := confined.costs
  cases c with
  | tryStartThawRequest => exact confined.grants i
  | claim budget =>
    cases budget with
    | acquireQueuedConcurrency key metadataKey cost slotId config =>
      cases of_decide_eq_true contained
      have keeps := Keeps.acquireQueuedConcurrency slots costs s metadataKey cost slotId config now
      simp only [Call.Apart, BudgetClaim.exec, answer]
      split <;> rename_i out <;> rwa [out] at keeps
    | _ => cases contained
  | releaseClaim release =>
    cases release with
    | releaseConcurrency key slotId =>
      cases of_decide_eq_true contained
      exact .releaseSlot slots costs s slotId
    | _ => cases contained
  | releaseUnusedAdmission release =>
    cases release with
    | releaseConcurrency key slotId =>
      cases of_decide_eq_true contained
      exact .releaseSlot slots costs s slotId
    | _ => cases contained
  | _ => trivial

theorem Event.fair_of_test (confined : Confined q slotKey clients) {e : Event ι}
    (test : e.fair q slotKey clients now sys = true) : e.Fair q clients now sys := by
  cases e with
  | pass i fate outlook =>
    intro c next at_
    simp only [Event.fair, at_] at test
    exact Call.apart_of_contained confined test
  | add request ttl =>
    simp only [Event.fair, Bool.and_eq_true, Bool.or_eq_true, Bool.not_eq_true',
      decide_eq_true_eq, decide_eq_false_iff_not, List.all_eq_true] at test
    refine ⟨test.1, ?_⟩
    intro added used
    rcases test.2 with (refused | unused) | retried
    · exact absurd added refused
    · exact absurd used unused
    · exact retried
  | retry id =>
    simpa [Event.fair, Event.Fair] using test
  | elsewhere after => cases test
  | _ => trivial

def Event.answered : Event ι → Bool
  | .pass _ fate _ => decide (fate = .answered)
  | _ => true

theorem Event.answered_of_test {e : Event ι} (test : e.answered = true) : e.Answered := by
  cases e with
  | pass i fate outlook => simpa [Event.answered, Event.Answered] using test
  | _ => trivial

def Event.guarded (clients : ι → Client) (now : ℚ) (sys : System ι) : Event ι → Bool
  | .pass i fate _ =>
    match sys.program clients i with
    | .call (.updateRequest _ _) _ => decide (fate = .failedBefore) ||
        (sys.views i).all fun v => !sys.record.spent i &&
        (sys.record.landed i || v.request.claimedAt.any fun x => decide (now - x < queueClaimLeaseMs))
    | _ => true
  | _ => true

theorem Event.guarded_of_test {e : Event ι} (test : e.guarded clients now sys = true) :
    e.Guarded clients now sys := by
  cases e with
  | pass i fate outlook =>
    intro c next at_
    cases c with
    | updateRequest id updates =>
      intro sent v view
      simp only [Event.guarded, at_, view, sent, decide_false, Bool.false_or, Option.all_some, Bool.and_eq_true,
        Bool.not_eq_true', Bool.or_eq_true, Option.any_eq_true, decide_eq_true_eq] at test
      exact test
    | _ => trivial
  | _ => trivial

variable [DecidableEq ι]

theorem drainRuns_of_test (confined : Confined q slotKey clients) (now : ℚ) (e : Event ι) (sys : System ι)
    (test : (e.fair q slotKey clients now sys && e.answered) = true) : (drainRuns q clients).allowed now e sys := by
  rw [Bool.and_eq_true] at test
  exact ⟨Event.fair_of_test confined test.1, Event.answered_of_test test.2⟩

theorem guardedRuns_of_test (confined : Confined q slotKey clients) (now : ℚ) (e : Event ι) (sys : System ι)
    (test : (e.fair q slotKey clients now sys && e.guarded clients now sys) = true) :
    (guardedRuns q clients).allowed now e sys := by
  rw [Bool.and_eq_true] at test
  exact ⟨Event.fair_of_test confined test.1, Event.guarded_of_test test.2⟩

/-- An unmetered client of an instance. -/
def plainClient (instanceId : String) : Client where
  instanceId := instanceId
  usesGrantIsolation := false
  frozenGrantsKey := "ns:frozenGrants"
  freezeStateKey _ := "ns:freezeState"
  metered := false
  claimsReleasableCapacity := false
  unusableCost _ := false
  claim _ := .acquireMultiLimit []
  releaseClaim _ := []
  tombstoneTtlSeconds := 60

/-- Runs name the two controllers by numerals. -/
instance controllerNumerals : NeZero 2 := ⟨by decide⟩

/-- Two controllers of one client. -/
def controllers (i : Fin 2) : Client := plainClient (if i = 0 then "one" else "two")

theorem outside_queue {key : String} (head : key.toList.take 4 ≠ "ns:r".toList) (ne : key ≠ "ns:queue") :
    key ∉ (clientQueue "ns").keys := by
  rintro (rfl | ⟨tail, rfl⟩)
  · exact ne (by decide +kernel)
  · exact head (by simp [QueueKeys.metadataKey, clientQueue])

omit [DecidableEq ι] in
theorem plain_confined {clients : ι → Client} (plain : ∀ i, (clients i).frozenGrantsKey = "ns:frozenGrants") :
    Confined (clientQueue "ns") "ns:slots" clients := by
  refine ⟨fun i => ?_, outside_queue (by decide) (by decide), outside_queue (by decide +kernel) (by decide +kernel)⟩
  rw [plain i]
  exact outside_queue (by decide) (by decide)

theorem controllers_confined : Confined (clientQueue "ns") "ns:slots" controllers := plain_confined fun _ => rfl

theorem bare_fresh (q : QueueKeys) (now : ℚ) : Bare q now State.fresh := fun _ => rfl

/-- A pass claims and lets its lease lapse, another claims and hands over, and the first is refused. -/
def lapsedRun : List (ℚ × Event (Fin 2)) :=
  [(0, .add (plainRequest "first" "one") 86400), (1, .pass 0 .answered {}), (2, .pass 0 .answered {}),
    (10001, .pass 1 .answered {}), (10002, .pass 0 .answered {}), (10003, .pass 1 .answered {}),
    (10004, .pass 1 .answered {}), (10005, .pass 1 .answered {})]

theorem handed_at_most_once_lapsed :
    ((drainRuns (clientQueue "ns") controllers).final (.start controllers State.fresh 0) lapsedRun).record.handed "first" ≤ 1 :=
  handed_at_most_once (bare_fresh _ 0) (Timed.Machine.valid_of_checks (drainRuns_of_test controllers_confined) (by decide +kernel)) "first"

/-- A confirmation fails unsent and the lease lapses; the entry is claimed again, and written back by the first pass. -/
def lostRun : List (ℚ × Event (Fin 2)) :=
  [(0, .add (plainRequest "first" "one") 86400), (1, .pass 0 .answered {}), (2, .pass 0 .answered {}),
    (3, .pass 0 .failedBefore {}), (10001, .pass 1 .answered {}), (10002, .pass 0 .answered {})]

theorem overwrites_lost :
    (faultyRuns (clientQueue "ns") controllers).Valid 0 (.start controllers State.fresh 0) lostRun ∧
    (faultyRuns (clientQueue "ns") controllers).Passes
      (fun now e sys => e.overwrites (clientQueue "ns") controllers now sys = true)
        (.start controllers State.fresh 0) lostRun :=
  ⟨Timed.Machine.valid_of_checks (fun _ _ _ => Event.fair_of_test controllers_confined) (by decide +kernel), by decide +kernel⟩

/-- A confirmation lands but its reply is lost, and the entry is written back by its holder before it is claimed again. -/
def landedRun : List (ℚ × Event (Fin 2)) :=
  [(0, .add (plainRequest "first" "one") 86400), (1, .pass 0 .answered {}), (2, .pass 0 .answered {}),
    (3, .pass 0 .failedAfter {}), (10001, .pass 1 .answered {}), (10002, .pass 0 .answered {}),
      (10003, .pass 1 .answered {})]

theorem never_overwrites_landed : ¬ (guardedRuns (clientQueue "ns") controllers).Passes
    (fun now e sys => e.overwrites (clientQueue "ns") controllers now sys = true)
      (.start controllers State.fresh 0) landedRun :=
  never_overwrites (bare_fresh _ 0) (Timed.Machine.valid_of_checks (guardedRuns_of_test controllers_confined) (by decide +kernel))

end Tests

end Dianemo
