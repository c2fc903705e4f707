import Dianemo.Sole
import Dianemo.Life
import Dianemo.Redelivery

namespace Dianemo

open JsNumber Resumption Client

section Turns

variable {q : QueueKeys} {client : Client} {limits : Limits} {w w' : Stage} {l l' : PassLocals}
    {request : QueuedRequest}

/-- The entry's cost is never to be admitted, or it has no grant and the client's own budget declined. -/
def PassedOver (client : Client) (limits : Limits) (declined : List (Option String)) (h : Fields) : Prop :=
  client.payable limits (parseStoredCost (h.lookup "cost")) = false ∨
    present (h.lookup "grantId") = none ∧ none ∈ declined

/-- What the pass skips it was told to. -/
structure Settled (q : QueueKeys) (client : Client) (limits : Limits) (w : Stage) (l : PassLocals) : Prop where
  named : Named q w.clock w.store
  blocked : ∀ grantId ∈ l.blockedGrantIds, some grantId ∈ w.declined
  skipped : ∀ id ∈ l.skippedRequestIds, ∀ h, q.item w.store w.clock id = some h →
    PassedOver client limits w.declined h

/-- The pass is busy with a claim. -/
structure Serving (q : QueueKeys) (client : Client) (limits : Limits) (request : QueuedRequest)
    (w : Stage) (l : PassLocals) : Prop where
  settled : Settled q client limits w l
  claim : w.request = some request
  own : ∀ h, q.item w.store w.clock request.requestId = some h →
    parseStoredCost (h.lookup "cost") = request.cost ∧ present (h.lookup "grantId") = request.grantId

theorem PassedOver.faithful {declined declined' : List (Option String)} {h h' : Fields} (faithful : Faithful h h')
    (grows : declined ⊆ declined') (over_ : PassedOver client limits declined h) :
    PassedOver client limits declined' h' := by
  unfold PassedOver
  rw [faithful "cost" (by decide), faithful "grantId" (by decide)]
  rcases over_ with unpayable | ⟨grantless, told⟩
  · exact .inl unpayable
  · exact .inr ⟨grantless, grows told⟩

theorem Settled.onward (settled : Settled q client limits w l) (onward : Onward q client w w')
    (blocked : l'.blockedGrantIds = l.blockedGrantIds) (skipped : l'.skippedRequestIds = l.skippedRequestIds) :
    Settled q client limits w' l' where
  named := settled.named.sourced (onward.sourced settled.named)
  blocked grantId member := onward.declined (settled.blocked grantId (blocked ▸ member))
  skipped id member h' found := by
    obtain ⟨h, found, faithful⟩ := onward.sourced settled.named id h' found
    exact (settled.skipped id (skipped ▸ member) h found).faithful faithful onward.declined

theorem Serving.within (serving : Serving q client limits request w l) (kept : Within q client w l w' l') :
    Serving q client limits request w' l' where
  settled := serving.settled.onward kept.onward kept.blocked kept.skipped
  claim := kept.request.trans serving.claim
  own h' found := by
    obtain ⟨h, found, faithful⟩ := kept.onward.sourced serving.settled.named _ h' found
    rw [faithful "cost" (by decide), faithful "grantId" (by decide)]
    exact serving.own h found

/-- The claim is skipped from now on. -/
theorem Serving.skip (serving : Serving q client limits request w l)
    (why : client.payable limits request.cost = false ∨ request.grantId = none ∧ none ∈ w.declined) :
    Settled q client limits w { l with skippedRequestIds := request.requestId :: l.skippedRequestIds } where
  named := serving.settled.named
  blocked := serving.settled.blocked
  skipped id member h found := by
    rcases List.mem_cons.mp member with rfl | old
    · obtain ⟨cost, grant⟩ := serving.own h found
      rw [PassedOver, cost, grant]
      exact why
    · exact serving.settled.skipped id old h found

/-- The loop goes on, and what it skips it was told to. -/
def GoesOn (q : QueueKeys) (client : Client) (limits : Limits) (out : Except DrainError Flow)
    (l : PassLocals) (w : Stage) : Prop :=
  out = .ok .next ∧ Settled q client limits w l

/-- An answer that turns the claim away is kept in mind. -/
theorem declined_of_answers {c : Call} {reply : Except DrainError (Reply c)} (claim : w.request = some request)
    (refused : c.refused reply = true) (answers : (soleWorld q client limits).answers w c reply w') :
    request.grantId ∈ w'.declined := by
  obtain ⟨now, outlook, -, -, -, -, -, run⟩ := answers
  obtain ⟨rfl, rfl⟩ := Prod.mk.inj run
  simp [refused, claim]

theorem costProblem_of_answers {cost : RequestCost} {found : Option CostProblem}
    (answers : (soleWorld q client limits).answers w (.costProblem cost) (.ok found) w') : found = limits cost := by
  obtain ⟨now, outlook, -, -, told, -, -, run⟩ := answers
  have reply := (Prod.mk.inj run).1
  exact (Except.ok.inj reply).trans (told cost rfl)

theorem not_error_of_answers {c : Call} {e : DrainError}
    (answers : (soleWorld q client limits).answers w c (.error e) w') : False := by
  obtain ⟨now, outlook, -, -, -, -, ⟨r, done⟩, -⟩ := answers
  cases done

theorem canProcess_of_answers {key : String} {res : CanProcess}
    (answers : (soleWorld q client limits).answers w (.canProcessRequest key) (.ok res) w') :
    res = canProcessRequest w'.store key w'.clock := by
  obtain ⟨now, outlook, -, -, -, -, -, run⟩ := answers
  obtain ⟨reply, rfl⟩ := Prod.mk.inj run
  exact Except.ok.inj reply

/-- The claim is stepped over for its cost. -/
theorem passOver_abides (serving : Serving q client limits request w l)
    (unpayable : client.payable limits request.cost = false)
    {x : Pass Unit} (calm : Calm q client limits x) :
    (do
      skip request
      x
      pure .next : Pass Flow).Abides (soleWorld q client limits) (GoesOn q client limits) w l := by
  rw [Act.abides_bind]
  refine Act.abides_update.mpr ?_
  refine calm.andThen ?_
  intro _ w' l' kept
  exact ⟨rfl, (serving.skip (.inl unpayable)).onward kept.onward kept.blocked kept.skipped⟩

theorem afterDecline_abides (isolated : client.usesGrantIsolation = true)
    (serving : Serving q client limits request w l) (declined : request.grantId ∈ w.declined) :
    (client.afterDecline request).Abides (soleWorld q client limits) (GoesOn q client limits) w l := by
  unfold afterDecline
  rw [if_pos isolated]
  cases grant : request.grantId with
  | some grantId =>
    refine ⟨rfl, { serving.settled with blocked := ?_ }⟩
    intro other member
    rcases List.mem_cons.mp member with rfl | old
    · rw [← grant]
      exact declined
    · exact serving.settled.blocked other old
  | none =>
    rw [grant] at declined
    exact ⟨rfl, serving.skip (.inr ⟨grant, declined⟩)⟩

variable (separate : client.Separate q)

include separate

/-- A budget that was free a moment ago is not frozen now: nobody else arms a freeze. -/
theorem isFrozen_abides (grantId : Option String)
    (free : (canProcessRequest w.store (client.freezeStateKey grantId) w.clock).canProcess = true) :
    (client.isFrozen grantId).Abides (soleWorld q client limits) (fun out l' w' => out = .ok false ∧
      Within q client w l w' l') w l := by
  simp only [Client.isFrozen, Act.abides_bind]
  refine (Act.abides_call (c := Call.canProcessRequest (client.freezeStateKey grantId))).mpr ⟨trivial, ?_⟩
  intro reply w' answers
  have kept : Within q client w l w' l := within_of_answers separate rfl answers
  cases reply with
  | error e => exact (not_error_of_answers answers).elim
  | ok res =>
    refine ⟨?_, kept⟩
    have found := canProcess_of_answers answers
    rw [found, kept.onward.free grantId free]
    rfl

/-- A turn is refused by the claim's own budget, and fails for nothing but a cost that is never to be admitted. -/
theorem turn_abides (serving : Serving q client limits request w l)
    (free : (canProcessRequest w.store (client.freezeStateKey request.grantId) w.clock).canProcess = true) :
    (client.tryAcquireTurn request).Abides (soleWorld q client limits) (fun out l' w' => Within q client w l w' l' ∧
      match out with
      | .ok true => True
      | .ok false => request.grantId ∈ w'.declined
      | .error e => e.isCost = true ∧ client.payable limits request.cost = false) w l := by
  simp only [tryAcquireTurn, Act.abides_bind, Act.abides_locals]
  split
  · exact ⟨.refl w l, trivial⟩
  split
  · rename_i unusable
    exact ⟨.refl w l, rfl, unpayable_of_unusable unusable⟩
  rw [Act.abides_bind]
  refine (Act.abides_call (c := Call.costProblem request.cost)).mpr ⟨trivial, ?_⟩
  intro reply w₁ answers
  have kept₁ : Within q client w l w₁ l := within_of_answers separate rfl answers
  cases reply with
  | error e => exact (not_error_of_answers answers).elim
  | ok problem =>
    have told := costProblem_of_answers answers
    cases problem with
    | some problem => exact ⟨kept₁, rfl, unpayable_of_problem (by simp [← told])⟩
    | none =>
      dsimp only
      rw [Act.abides_bind]
      refine (isFrozen_abides separate request.grantId (kept₁.onward.free _ free)).mono ?_
      rintro out l₂ w₂ ⟨rfl, kept₂⟩
      have kept₂ := kept₁.trans kept₂
      simp only [Bool.false_eq_true, if_false, Act.abides_bind]
      refine (Act.abides_call (c := Call.claim (client.claim (requestMetadata request l.isThawRequest)))).mpr ⟨trivial, ?_⟩
      intro reply w₃ answers
      have kept₃ := kept₂.trans (within_of_answers (l := l₂) separate rfl answers)
      cases reply with
      | error e => exact (not_error_of_answers answers).elim
      | ok res =>
        have usable : res.error.isSome = false := by
          obtain ⟨now, outlook, -, -, -, clear, -, run⟩ := answers
          obtain ⟨reply, -⟩ := Prod.mk.inj run
          cases failed : res.error.isSome with
          | false => rfl
          | true =>
            have hindered := congrArg (fun out : Except DrainError ClaimResult =>
              out.toOption.elim false fun res => res.error.isSome) reply
            exact absurd (hindered.symm.trans failed) clear
        simp only [usable, Bool.false_eq_true, if_false]
        cases acquired : res.acquired with
        | false =>
          simp only [Bool.false_eq_true, not_false_eq_true, if_true]
          refine ⟨kept₃, declined_of_answers (kept₂.request.trans serving.claim) ?_ answers⟩
          simp [Call.refused, acquired]
        | true =>
          simp only [not_true_eq_false, if_false, Act.abides_bind]
          refine (isFrozen_abides separate request.grantId (kept₃.onward.free _ free)).mono ?_
          rintro out l₄ w₄ ⟨rfl, kept₄⟩
          exact ⟨kept₃.trans kept₄, trivial⟩

theorem declineFrozen_goesOn (isolated : client.usesGrantIsolation = true)
    (serving : Serving q client limits request w l)
    (declined : request.grantId ∈ w.declined) (frozenUntil : Option ℚ) :
    (client.declineFrozen request frozenUntil).Abides (soleWorld q client limits) (GoesOn q client limits) w l := by
  refine (Calm.returnToQueue separate).andThen ?_
  intro _ w₁ l₁ kept₁
  rw [Act.abides_bind]
  refine (Act.abides_call (c := Call.costProblem request.cost)).mpr ⟨trivial, ?_⟩
  intro reply w₂ answers
  have kept₂ := kept₁.trans (within_of_answers (l := l₁) separate rfl answers)
  cases reply with
  | error e => exact (not_error_of_answers answers).elim
  | ok problem =>
    have told := costProblem_of_answers answers
    cases problem with
    | some problem =>
      exact passOver_abides (serving.within kept₂) (unpayable_of_problem (by simp [← told]))
        (Calm.failUnsatisfiable separate)
    | none =>
      refine (Calm.scheduleDrainForFreeze separate frozenUntil request.grantId).andThen ?_
      intro _ w₃ l₃ kept₃
      have kept₃ := kept₂.trans kept₃
      exact afterDecline_abides isolated (serving.within kept₃) (kept₃.onward.declined declined)

/-- How the `try` block ends: the loop goes on, or the claim's cost is never to be admitted. -/
def Ends (q : QueueKeys) (client : Client) (limits : Limits) (request : QueuedRequest)
    (out : Except DrainError Flow) (l : PassLocals) (w : Stage) : Prop :=
  match out with
  | .ok flow => GoesOn q client limits (.ok flow) l w
  | .error e => Serving q client limits request w l ∧ e.isCost = true ∧ client.payable limits request.cost = false

theorem takeTurn_ends (isolated : client.usesGrantIsolation = true) (serving : Serving q client limits request w l)
    (free : (canProcessRequest w.store (client.freezeStateKey request.grantId) w.clock).canProcess = true) :
    (client.takeTurn request).Abides (soleWorld q client limits) (Ends q client limits request) w l := by
  unfold takeTurn
  rw [Act.abides_bind]
  refine (turn_abides separate serving free).mono ?_
  rintro out l₁ w₁ ⟨kept₁, told⟩
  cases out with
  | error e => exact ⟨serving.within kept₁, told⟩
  | ok acquired =>
    cases acquired with
    | true =>
      simp only [if_true]
      refine (Calm.dispatch separate).mono ?_
      rintro out l₂ w₂ ⟨rfl, kept₂⟩
      exact ⟨rfl, (serving.within (kept₁.trans kept₂)).settled⟩
    | false =>
      simp only [Bool.false_eq_true, if_false]
      refine (Calm.returnToQueue separate).andThen ?_
      intro _ w₂ l₂ kept₂
      refine (afterDecline_abides isolated (serving.within (kept₁.trans kept₂)) (kept₂.onward.declined told)).mono ?_
      rintro out l₃ w₃ ⟨rfl, settled⟩
      exact ⟨rfl, settled⟩

theorem admission_ends (isolated : client.usesGrantIsolation = true)
    (serving : Serving q client limits request w l) :
    (client.admission request).Abides (soleWorld q client limits) (Ends q client limits request) w l := by
  have over_ : ∀ out l w, GoesOn q client limits out l w → Ends q client limits request out l w := by
    rintro _ l w ⟨rfl, settled⟩
    exact ⟨rfl, settled⟩
  unfold admission
  rw [Act.abides_bind]
  refine (Act.abides_call (c := Call.canProcessRequest (client.freezeStateKey request.grantId))).mpr ⟨trivial, ?_⟩
  intro reply w₁ answers
  have kept₁ : Within q client w l w₁ l := within_of_answers separate rfl answers
  have serving₁ := serving.within kept₁
  cases reply with
  | error e => exact (not_error_of_answers answers).elim
  | ok res =>
    have found := canProcess_of_answers answers
    cases free : res.canProcess with
    | false =>
      have declined : request.grantId ∈ w₁.declined :=
        declined_of_answers serving.claim (by simp [Call.refused, free]) answers
      dsimp only
      rw [if_pos (by rw [free]; nofun)]
      exact (declineFrozen_goesOn separate isolated serving₁ declined _).mono over_
    | true =>
      dsimp only
      rw [if_neg (not_not.mpr free)]
      rw [found] at free
      split
      · rw [Act.abides_bind]
        refine Act.abides_call.mpr ⟨trivial, ?_⟩
        intro reply w₂ answers
        have kept₂ : Within q client w₁ l w₂ l := within_of_answers separate rfl answers
        cases reply with
        | error e => exact (not_error_of_answers answers).elim
        | ok started =>
          have goes : started = true := by
            obtain ⟨now, outlook, -, -, -, clear, -, run⟩ := answers
            obtain ⟨reply, -⟩ := Prod.mk.inj run
            exact (Except.ok.inj reply).trans (tryStartThawRequest_started separate.grants clear)
          subst goes
          simp only [if_true]
          rw [Act.abides_bind]
          refine Act.abides_update.mpr ?_
          have kept₃ : Within q client w₁ l w₂ { l with isThawRequest := true } :=
            ⟨kept₂.onward, kept₂.request, rfl, rfl⟩
          exact takeTurn_ends separate isolated (serving₁.within kept₃) (kept₃.onward.free _ free)
      · exact takeTurn_ends separate isolated serving₁ free

theorem recover_goesOn (serving : Serving q client limits request w l) {error : DrainError}
    (blames : error.isCost = true) (unpayable : client.payable limits request.cost = false) :
    (client.recover request error).Abides (soleWorld q client limits) (GoesOn q client limits) w l := by
  refine ((Calm.returnToQueue separate).tryCatch _).andThen ?_
  intro _ w₁ l₁ kept₁
  have serving₁ := serving.within kept₁
  cases error with
  | requestCost problem => exact passOver_abides serving₁ unpayable (Calm.failUnsatisfiable separate)
  | invalidRequestCost =>
    by_cases mine : request.ownerId = client.instanceId
    · simp only [if_pos mine]
      exact passOver_abides serving₁ unpayable (Calm.failWaiter separate)
    · simp only [if_neg mine]
      exact passOver_abides serving₁ unpayable (.pure ())
  | clientFrozen => cases blames
  | unusableRateLimit => cases blames
  | failed => cases blames

theorem serve_goesOn (isolated : client.usesGrantIsolation = true) (serving : Serving q client limits request w l) :
    (client.serve request).Abides (soleWorld q client limits) (GoesOn q client limits) w l := by
  simp only [serve, Act.abides_bind, Act.abides_update, Act.abides_tryCatch]
  have kept : Within q client w l w { l with confirmation := .unsent, isThawRequest := request.isThawRequest } :=
    ⟨.refl w, rfl, rfl, rfl⟩
  refine (admission_ends separate isolated (serving.within kept)).mono ?_
  intro out l₁ w₁ ends
  cases out with
  | ok flow => exact ends
  | error e => exact recover_goesOn separate ends.1 ends.2.1 ends.2.2

end Turns

section Rounds

variable {q : QueueKeys} {client : Client} {limits : Limits} {w w' : Stage} {l l' : PassLocals}
    {request : QueuedRequest} {now : ℚ}

/-- Who still waits has a budget that is frozen or declined, or a cost that is never to be admitted. -/
def Served (q : QueueKeys) (client : Client) (limits : Limits) (w : Stage) : Prop :=
  ∀ id ∈ w.store.sorted q.queueKey w.clock, ∀ h, q.item w.store w.clock id = some h →
    h.lookup "status" = some (.text "pending") → ∀ request, toQueued h = some request →
      client.payable limits request.cost = false ∨ request.grantId ∈ w.declined ∨
        ∃ grantId ∈ w.frozen, request.grantId = some grantId

theorem Served.idle (served : Served q client limits w) (order : w.clock ≤ now) :
    Served q client limits { w with clock := now } := by
  intro id listed h held waits request read
  have listed : id ∈ w.store.sorted q.queueKey w.clock := by
    rcases sorted_later order w.store q.queueKey with none_ | same
    · rw [none_] at listed
      cases listed
    · exact same ▸ listed
  rcases item_later order w.store id with gone | same
  · rw [gone] at held
    cases held
  · exact served id listed h (same.symm.trans held) waits request read

theorem toQueued_grantId {h : Fields} (read : toQueued h = some request) :
    request.grantId = present (h.lookup "grantId") := by
  simp only [toQueued, Option.bind_eq_bind, Option.bind_eq_some_iff, Option.some.injEq] at read
  obtain ⟨_, -, _, -, _, -, _, -, rfl⟩ := read
  rfl

theorem present_string {raw : Option Field} (text : Field.string raw ≠ "") :
    present raw = some (Field.string raw) := by
  match raw, text with
  | some (.text s), text => exact if_neg text

/-- An entry a pass may claim can be read back once it is claimed. -/
theorem getNextRequest_none {s : State} {skipGrantIds skipRequestIds : List String}
    (nothing : (getNextRequest q s skipGrantIds skipRequestIds now).1 = none) :
    nextId q s skipGrantIds skipRequestIds now = none := by
  cases next : nextId q s skipGrantIds skipRequestIds now with
  | none => rfl
  | some id =>
    obtain ⟨h, -, -, reads, run⟩ := getNextRequest_of_some next
    have whole := (Whole.of_toQueued reads).faithful (.claimed h now)
    have stands : (withFields h (claimFields h now)).lookup "status" = some (.text "inProgress") := by
      simp [claimFields, withFields, AList.lookup_insert_ne]
    have claimed := whole.toQueued stands (by decide)
    rw [run] at nothing
    change toQueued (withFields h (claimFields h now)) = none at nothing
    rw [nothing] at claimed
    cases claimed

/-- A pass that is handed nothing has served whom it could. -/
theorem Settled.served (settled : Settled q client limits w l)
    (nothing : nextId q w.store (w.frozen ++ l.blockedGrantIds)
    l.skippedRequestIds w.clock = none) : Served q client limits w := by
  intro id listed h held waits request read
  have refused := List.find?_eq_none.mp nothing id listed
  have found : w.store.hash (q.metadataKey id) w.clock = some h := held
  have free : claimable (h.lookup "status") (h.lookup "claimedAt") w.clock = true := by simp [claimable, waits]
  simp only [mayHandOut, found, free, read, Option.isSome_some, Bool.and_true, Bool.true_and,
    Bool.and_eq_true, Bool.or_eq_true, decide_eq_true_eq, not_and_or, not_not, not_or] at refused
  rcases refused with skipped | ⟨text, among⟩
  · rcases settled.skipped id skipped h held with unpayable | ⟨grantless, told⟩
    · exact .inl (by rw [toQueued_cost read]; exact unpayable)
    · exact .inr (.inl (by rw [toQueued_grantId read, grantless]; exact told))
  · have grant : request.grantId = some (Field.string (h.lookup "grantId")) :=
      (toQueued_grantId read).trans (present_string text)
    rcases List.mem_append.mp among with frozen | blocked
    · exact .inr (.inr ⟨_, frozen, grant⟩)
    · exact .inr (.inl (by rw [grant]; exact settled.blocked _ blocked))

/-- A claim the pass took up. -/
theorem serving_of_answers (separate : client.Separate q) (settled : Settled q client limits w l)
    {skipGrantIds skipRequestIds : List String}
    (answers : (soleWorld q client limits).answers w (.getNextRequest skipGrantIds skipRequestIds) (.ok (some request)) w') :
    Serving q client limits request w' l := by
  have onward := onward_of_answers separate answers
  refine ⟨settled.onward onward rfl rfl, ?_, ?_⟩
  · obtain ⟨now, outlook, -, -, -, -, -, run⟩ := answers
    obtain ⟨reply, rfl⟩ := Prod.mk.inj run
    exact congrArg (fun reply : Except DrainError (Option QueuedRequest) => reply.toOption.join) reply.symm
  · obtain ⟨now, outlook, order, -, -, -, -, run⟩ := answers
    obtain ⟨reply, rfl⟩ := Prod.mk.inj run
    intro h' found
    have reply := Except.ok.inj reply
    change q.item (getNextRequest q w.store skipGrantIds skipRequestIds now).2 now request.requestId =
      some h' at found
    cases next : nextId q w.store skipGrantIds skipRequestIds now with
    | none =>
      rw [getNextRequest_of_none next] at reply
      cases reply
    | some id =>
      obtain ⟨h, held, -, -, run⟩ := getNextRequest_of_some next
      rw [run] at reply found
      have named := settled.named.sourced (sourced_later order w.store) id h held
      obtain ⟨rfl, -⟩ := toQueued_claimFields reply.symm named
      rw [item_setFields held, Function.update_self] at found
      cases found
      exact ⟨(toQueued_cost reply.symm).symm, (toQueued_grantId reply.symm).symm⟩

/-- Where a round ends: fit for the next one, or with all served who could be. -/
def RoundEnds (q : QueueKeys) (client : Client) (limits : Limits) (o : Option PassLocals) (w : Stage) : Prop :=
  (∀ l, o = some l → Settled q client limits w l) ∧ (o = none → Served q client limits w)

theorem drainOnce_abides_sole (separate : client.Separate q) (isolated : client.usesGrantIsolation = true)
    (settled : Settled q client limits w l) :
    client.drainOnce.Abides (soleWorld q client limits) (fun out l' w' =>
      out = .ok .next ∧ Settled q client limits w' l' ∨ out = .ok .stop ∧ Served q client limits w') w l := by
  have reads : client.getFrozenGrantIds = ask (.smembers client.frozenGrantsKey) := by
    simp [getFrozenGrantIds, isolated]
  unfold drainOnce
  rw [reads, Act.abides_bind]
  refine (Act.abides_call (c := Call.smembers client.frozenGrantsKey)).mpr ⟨trivial, ?_⟩
  intro reply w₁ answers₁
  have settled₁ := settled.onward (onward_of_answers separate answers₁) rfl rfl
  cases reply with
  | error e => exact (not_error_of_answers answers₁).elim
  | ok frozen =>
    have told : w₁.frozen = frozen := by
      obtain ⟨now, outlook, -, -, -, -, -, run⟩ := answers₁
      obtain ⟨reply, rfl⟩ := Prod.mk.inj run
      exact (Except.ok.inj reply).symm
    simp only [Act.abides_bind, Act.abides_locals]
    refine (Act.abides_call (c := Call.getNextRequest (frozen ++ l.blockedGrantIds) l.skippedRequestIds)).mpr ⟨trivial, ?_⟩
    intro reply w₂ answers₂
    cases reply with
    | error e => exact (not_error_of_answers answers₂).elim
    | ok found =>
      cases found with
      | some request =>
        refine (serve_goesOn separate isolated (serving_of_answers separate settled₁ answers₂)).mono ?_
        intro out l' w' goesOn
        exact .inl goesOn
      | none =>
        refine .inr ⟨rfl, ?_⟩
        have settled₂ : Settled q client limits w₂ l :=
          settled₁.onward (onward_of_answers separate answers₂) rfl rfl
        obtain ⟨now, outlook, -, -, -, -, -, run⟩ := answers₂
        obtain ⟨reply, rfl⟩ := Prod.mk.inj run
        have nothing := getNextRequest_none (Except.ok.inj reply).symm
        have same : (getNextRequest q w₁.store (frozen ++ l.blockedGrantIds) l.skippedRequestIds now).2 =
            w₁.store := by
          rw [getNextRequest_of_none nothing]
        refine settled₂.served ?_
        change nextId q (getNextRequest q w₁.store (frozen ++ l.blockedGrantIds) l.skippedRequestIds now).2
          (w₁.frozen ++ l.blockedGrantIds) l.skippedRequestIds now = none
        rw [same, told]
        exact nothing

theorem sole_round (separate : client.Separate q) (isolated : client.usesGrantIsolation = true)
    (settled : Settled q client limits w l) :
    (client.round l).Abides (soleWorld q client limits) (RoundEnds q client limits) w := by
  refine Program.abides_bind.mpr ?_
  refine Program.Abides.mono ?_ (drainOnce_abides_sole separate isolated settled)
  rintro ⟨out, l'⟩ w' (⟨rfl, settled⟩ | ⟨rfl, served⟩)
  · exact ⟨by rintro _ ⟨⟩; exact settled, nofun⟩
  · exact ⟨nofun, fun _ => served⟩

end Rounds

section Runs

variable (q : QueueKeys) (client : Client) (limits : Limits)

/-- A pass of an isolated client whose calls are all answered, while nobody else acts. -/
def soleRuns : Timed.Machine ℚ (System Unit) (Event Unit) where
  step now e sys := sys.step q (fun _ => client) now e
  allowed now e sys := ∃ outlook, e = .pass () .answered outlook ∧
    ∀ c next, sys.program (fun _ => client) () = .call c next →
    c.Clear q client now sys.store ∧ (∀ cost, c = .costProblem cost → outlook.costProblem = limits cost) ∧
      ∃ r, (c.exec q client outlook now sys.store).1 = .ok r

/-- The pass at its start. -/
def System.sole (store : State) (clock : ℚ) : System Unit := System.start (fun _ => client) store clock

/-- The pass has left its loop. -/
def System.over (sys : System Unit) : Bool :=
  match sys.program (fun _ => client) () with
  | .done none => true
  | _ => false

/-- The next call of the pass is hindered. -/
def Hindered (now : ℚ) (_ : Event Unit) (sys : System Unit) : Prop :=
  match sys.program (fun _ => client) () with
  | .call c _ => c.Hindered q now sys.store
  | .done _ => False

instance (now : ℚ) (e : Event Unit) (sys : System Unit) : Decidable (Hindered q client now e sys) :=
  match at_ : sys.program (fun _ => client) () with
  | .call c _ => decidable_of_iff (c.Hindered q now sys.store) (by rw [Hindered, at_])
  | .done _ => .isFalse (by rw [Hindered, at_]; exact id)

/-- The grant, or none for the client itself, whose budget turns the claim at hand away. -/
def System.declining (sys : System Unit) (now : ℚ) : Option (Option String) :=
  match sys.views (), sys.program (fun _ => client) () with
  | some v, .call c _ => if c.refused (c.exec q client {} now sys.store).1 then some v.request.grantId else none
  | _, _ => none

def Declines (grantId : Option String) (now : ℚ) (_ : Event Unit) (sys : System Unit) : Prop :=
  sys.declining q client now = some grantId

instance (grantId : Option String) (now : ℚ) (e : Event Unit) (sys : System Unit) :
    Decidable (Declines q client grantId now e sys) :=
  inferInstanceAs (Decidable (sys.declining q client now = some grantId))

/-- The frozen grants as a run last read them. -/
def lastFrozen : List String → System Unit → List (ℚ × Event Unit) → List String
  | frozen, _, [] => frozen
  | frozen, sys, (now, e) :: rest =>
    lastFrozen (match sys.program (fun _ => client) () with
      | .call c _ => frozenAfter frozen c (c.exec q client {} now sys.store).1
      | .done _ => frozen) (sys.step q (fun _ => client) now e) rest

def System.stage (sys : System Unit) (frozen : List String) (declined : List (Option String)) : Stage where
  store := sys.store
  clock := sys.clock
  request := (sys.views ()).map ClaimView.request
  frozen := frozen
  declined := declined

variable {q client limits} {sys : System Unit} {t now : ℚ} {frozen : List String} {declined : List (Option String)}

theorem refused_outlook (c : Call) (outlook : Outlook) (now : ℚ) (s : State) :
    c.refused (c.exec q client outlook now s).1 = c.refused (c.exec q client {} now s).1 := by
  cases c <;> rfl

theorem frozenAfter_outlook (c : Call) (outlook : Outlook) (now : ℚ) (s : State) :
    frozenAfter frozen c (c.exec q client outlook now s).1 = frozenAfter frozen c (c.exec q client {} now s).1 := by
  cases c <;> rfl

theorem viewAfter_request (g : Option ClaimView) (c : Call) (reply : Except DrainError (Reply c)) :
    (viewAfter g c reply).map ClaimView.request = claimAfter (g.map ClaimView.request) c reply := by
  have same : ∀ reply : Except DrainError (Reply c), (g.map fun v => v.after c reply).map ClaimView.request =
      g.map ClaimView.request := by
    intro reply
    cases g with
    | none => rfl
    | some v => exact congrArg some (v.after_request c reply)
  cases c with
  | getNextRequest skipGrantIds skipRequestIds =>
    cases found : reply.toOption.join with
    | none => simp [viewAfter, claimAfter, found]
    | some request => simp [viewAfter, claimAfter, found]
  | _ => exact same reply

/-- What holds of such a pass between its calls. -/
structure Sole (q : QueueKeys) (client : Client) (limits : Limits) (t : ℚ)
    (sys : System Unit) (frozen : List String) (declined : List (Option String)) : Prop where
  clock : sys.clock = t
  abides : (sys.program (fun _ => client) ()).Abides (soleWorld q client limits) (RoundEnds q client limits)
    (sys.stage frozen declined)

theorem Sole.step (separate : client.Separate q) (isolated : client.usesGrantIsolation = true)
    (sole : Sole q client limits t sys frozen declined) (order : t ≤ now) {e : Event Unit}
    (allowed : (soleRuns q client limits).allowed now e sys) (clear : ¬ Hindered q client now e sys) :
    Sole q client limits now (sys.step q (fun _ => client) now e)
      (match sys.program (fun _ => client) () with
        | .call c _ => frozenAfter frozen c (c.exec q client {} now sys.store).1
        | .done _ => frozen) ((sys.declining q client now).toList ++ declined) := by
  obtain ⟨outlook, rfl, fair⟩ := allowed
  have abides := sole.abides
  have later : sys.clock ≤ now := sole.clock.trans_le order
  simp only [System.step]
  cases at_ : sys.program (fun _ => client) () with
  | done o =>
    rw [at_] at abides
    have quiet : sys.declining q client now = none := by
      unfold System.declining
      rw [at_]
      split
      · rename_i same
        cases same
      · rfl
    rw [quiet]
    refine ⟨rfl, ?_⟩
    change (sys.program (fun _ => client) ()).Abides _ _ _
    rw [at_]
    refine ⟨?_, fun over_ => (abides.2 over_).idle later⟩
    intro l there
    exact (abides.1 l there).onward (.idle later) rfl rfl
  | call c next =>
    obtain ⟨apart, told, answered⟩ := fair c next at_
    rw [at_] at abides
    refine ⟨rfl, ?_⟩
    have unhindered : ¬ c.Hindered q now sys.store := by
      rw [Hindered, at_] at clear
      exact clear
    have after := abides.2 _ _ ⟨now, outlook, later, apart, told, unhindered, answered, rfl⟩
    have unrolled := Program.Abides.unroll (fun l w ends => sole_round separate isolated (ends.1 l rfl)) after
    have staged : (sys.call q (fun _ => client) () .answered outlook now c next).stage
        (frozenAfter frozen c (c.exec q client {} now sys.store).1)
          ((sys.declining q client now).toList ++ declined) =
        ((sys.stage frozen declined).call q client outlook now c).2 := by
      have view := viewAfter_request (sys.views ()) c (c.exec q client outlook now sys.store).1
      have declining : (sys.declining q client now).toList =
          if c.refused (c.exec q client outlook now sys.store).1 then
          (((sys.views ()).map ClaimView.request).map QueuedRequest.grantId).toList else [] := by
        unfold System.declining
        rw [at_, refused_outlook]
        cases sys.views () with
        | none => simp
        | some v =>
          dsimp only
          split <;> rfl
      simp only [System.stage, System.call, Stage.call, Function.update_self, if_pos, true_or, view, declining,
        frozenAfter_outlook c outlook]
      rfl
    rw [staged]
    simpa only [System.program, System.call, Function.update_self, true_or, if_true, Stage.call,
      System.stage] using unrolled

/-- Whatever a run declined, one of its steps did. -/
theorem Sole.run (separate : client.Separate q) (isolated : client.usesGrantIsolation = true)
    {history : List (ℚ × Event Unit)} (valid : (soleRuns q client limits).Valid t sys history)
    (clear : ¬ (soleRuns q client limits).Passes (Hindered q client) sys history)
    (sole : Sole q client limits t sys frozen declined) :
    ∃ declined', Sole q client limits ((soleRuns q client limits).clock t history)
      ((soleRuns q client limits).final sys history)
      (lastFrozen q client frozen sys history) declined' ∧
        ∀ grantId ∈ declined', grantId ∈ declined ∨
          (soleRuns q client limits).Passes (Declines q client grantId) sys history := by
  induction history generalizing t sys frozen declined with
  | nil => exact ⟨declined, sole, fun grantId member => .inl member⟩
  | cons head rest ih =>
    obtain ⟨now, e⟩ := head
    obtain ⟨order, allowed, valid⟩ := valid
    have stepped := sole.step separate isolated order allowed fun hindered => clear (.inl hindered)
    obtain ⟨declined', sole', origin⟩ := ih valid (fun later => clear (.inr later)) stepped
    refine ⟨declined', sole', ?_⟩
    intro grantId member
    rcases origin grantId member with before | later
    · rcases List.mem_append.mp before with here | old
      · exact .inr (.inl (Option.mem_toList.mp here))
      · exact .inl old
    · exact .inr (.inr later)

/-- A pass of an isolated client that is never hindered ends with every pending
request served but for those whose cost is never to be admitted, whose budget
declined in this pass, or whose grant it read among the frozen ones. -/
theorem grants_isolated (separate : client.Separate q) (isolated : client.usesGrantIsolation = true)
    {store : State} {clock : ℚ} (named : Named q clock store) {history : List (ℚ × Event Unit)}
    (valid : (soleRuns q client limits).Valid clock (System.sole client store clock) history)
    (clear : ¬ (soleRuns q client limits).Passes (Hindered q client) (System.sole client store clock) history)
    (over_ : ((soleRuns q client limits).final (System.sole client store clock) history).over client = true) :
    ∀ id ∈ ((soleRuns q client limits).final (System.sole client store clock) history).store.sorted q.queueKey
        ((soleRuns q client limits).clock clock history),
      ∀ request, getRequest q ((soleRuns q client limits).final (System.sole client store clock) history).store id
          ((soleRuns q client limits).clock clock history) = some request → request.status = "pending" →
        client.payable limits request.cost = false ∨
          (soleRuns q client limits).Passes (Declines q client request.grantId)
            (System.sole client store clock) history ∨
          ∃ grantId ∈ lastFrozen q client [] (System.sole client store clock) history,
            request.grantId = some grantId := by
  have start : Sole q client limits clock (System.sole client store clock) [] [] := by
    refine ⟨rfl, ?_⟩
    refine Program.Abides.unroll (fun l w ends => sole_round separate isolated (ends.1 l rfl)) ?_
    exact sole_round separate isolated ⟨named, nofun, nofun⟩
  obtain ⟨declined, sole, origin⟩ := start.run separate isolated valid clear
  have served : Served q client limits (((soleRuns q client limits).final (System.sole client store clock) history).stage
      (lastFrozen q client [] (System.sole client store clock) history) declined) := by
    have abides := sole.abides
    unfold System.over at over_
    split at over_
    · rename_i at_
      rw [at_] at abides
      exact abides.2 rfl
    · cases over_
  rw [← sole.clock]
  intro id listed request read pending
  obtain ⟨h, held, read⟩ := Option.bind_eq_some_iff.mp read
  have waits : h.lookup "status" = some (.text "pending") := by
    simp only [toQueued, Option.bind_eq_bind, Option.bind_eq_some_iff, Option.some.injEq] at read
    obtain ⟨_, -, _, -, _, -, status, stands, rfl⟩ := read
    subst pending
    unfold present at stands
    split at stands
    · split at stands
      · cases stands
      · rename_i there _
        cases stands
        exact there
    · cases stands
  rcases served id listed h held waits request read with unpayable | told | frozen
  · exact .inl unpayable
  · exact .inr (.inl ((origin _ told).resolve_left List.not_mem_nil))
  · exact .inr (.inr frozen)

end Runs

section Tests

/-- A client that meters its grants apart. -/
def tenantClient : Client :=
  { plainClient "one" with
    usesGrantIsolation := true
    freezeStateKey := fun
      | none => "ns:freezeState"
      | some grantId => "ns:grant:" ++ grantId ++ ":freezeState" }

def tenantRequest (requestId : String) (grantId : Option String) : QueuedRequest :=
  { plainRequest requestId "two" with grantId := grantId }

/-- A queue of such requests, with a freeze under one key. -/
def tenantStore (requests : List QueuedRequest) (key : String) (frozenUntil thawRequestCount : JsNumber) : State :=
  ((armFreeze key frozenUntil thawRequestCount false 1).run
    (requests.foldl (fun s request => ((addRequest (clientQueue "ns") request 86400 1).run s).2) State.fresh)).2

/-- The next calls of a pass, one after the other. -/
def calls (from_ : ℚ) : ℕ → List (ℚ × Event Unit)
  | 0 => []
  | n + 1 => (from_, .pass () .answered {}) :: calls (from_ + 1) n

theorem tenant_separate : tenantClient.Separate (clientQueue "ns") where
  grants := outside_queue (by decide) (by decide)
  freezes grantId := by
    cases grantId with
    | none => exact outside_queue (by decide +kernel) (by decide +kernel)
    | some grantId =>
      refine outside_queue ?_ ?_
      · simp [tenantClient]
      · intro same
        have heads := congrArg (fun s => s.toList.take 4) same
        simp [tenantClient] at heads
  apart grantId := by
    cases grantId with
    | none => decide +kernel
    | some grantId =>
      intro same
      have heads := congrArg (fun s => s.toList.take 4) same
      simp [tenantClient, plainClient] at heads

/-- A test of such a run for a client without budgets. -/
def Event.sole (q : QueueKeys) (client : Client) (limits : Limits) (now : ℚ) (sys : System Unit) : Event Unit → Bool
  | .pass _ .answered outlook =>
    match sys.program (fun _ => client) () with
    | .call (.costProblem cost) _ => decide (outlook.costProblem = limits cost)
    | .call (.claim _) _ => false
    | .call (.releaseClaim _) _ => false
    | .call (.releaseUnusedAdmission _) _ => false
    | .call c _ => (c.exec q client outlook now sys.store).1.toOption.isSome
    | .done _ => true
  | _ => false

theorem soleRuns_of_test {q : QueueKeys} {client : Client} {limits : Limits} (now : ℚ)
    (e : Event Unit) (sys : System Unit)
    (test : e.sole q client limits now sys = true) : (soleRuns q client limits).allowed now e sys := by
  unfold Event.sole at test
  split at test
  · rename_i outlook
    refine ⟨outlook, rfl, ?_⟩
    intro c next at_
    rw [at_] at test
    cases c with
    | costProblem cost =>
      refine ⟨trivial, ?_, _, rfl⟩
      rintro _ ⟨⟩
      exact of_decide_eq_true test
    | claim budget => cases test
    | releaseClaim release => cases test
    | releaseUnusedAdmission release => cases test
    | _ => exact ⟨trivial, nofun, _, rfl⟩
  · cases test

/-- Two requests on the client's own budget, which thaws, and one of a grant. -/
def thawingStore : State :=
  tenantStore [tenantRequest "first" none, tenantRequest "second" none,
    tenantRequest "third" (some "g")] "ns:freezeState" 5 2

/-- The probe of the client's own budget is out when the next request on it
stops the pass, and the request of a grant that nothing holds back is left. -/
theorem grant_left_unserved :
    ∃ history request, (soleRuns (clientQueue "ns") tenantClient fun _ => none).Valid 10
        (System.sole tenantClient thawingStore 10) history ∧
      ((soleRuns (clientQueue "ns") tenantClient fun _ => none).final (System.sole tenantClient thawingStore 10) history).over
        tenantClient = true ∧
      "third" ∈
        ((soleRuns (clientQueue "ns") tenantClient fun _ => none).final (System.sole tenantClient thawingStore 10)
        history).store.sorted "ns:queue" ((soleRuns (clientQueue "ns") tenantClient fun _ => none).clock 10 history) ∧
      getRequest (clientQueue "ns") ((soleRuns (clientQueue "ns") tenantClient fun _ => none).final
        (System.sole tenantClient thawingStore 10) history).store "third"
        ((soleRuns (clientQueue "ns") tenantClient fun _ => none).clock 10 history) = some request ∧
      request.status = "pending" ∧ tenantClient.payable (fun _ => none) request.cost = true ∧
      ¬ (soleRuns (clientQueue "ns") tenantClient fun _ => none).Passes
        (Declines (clientQueue "ns") tenantClient request.grantId)
          (System.sole tenantClient thawingStore 10) history ∧
      ∀ grantId ∈ lastFrozen (clientQueue "ns") tenantClient [] (System.sole tenantClient thawingStore 10) history,
        request.grantId ≠ some grantId :=
  ⟨calls 10 12, tenantRequest "third" (some "g"),
    Timed.Machine.valid_of_checks soleRuns_of_test (by decide +kernel),
    by decide +kernel, by decide +kernel, by decide +kernel,
      rfl, by decide +kernel, by decide +kernel, by decide +kernel⟩

theorem tenantStore_named (requests : List QueuedRequest) {key : String} (outside : key ∉ (clientQueue "ns").keys)
    (frozenUntil thawRequestCount : JsNumber) :
    Named (clientQueue "ns") 1 (tenantStore requests key frozenUntil thawRequestCount) := by
  have adds : ∀ s, Named (clientQueue "ns") 1 s → Named (clientQueue "ns") 1
      (requests.foldl (fun s request => ((addRequest (clientQueue "ns") request 86400 1).run s).2) s) := by
    induction requests with
    | nil => exact fun _ named => named
    | cons request rest ih => exact fun s named => ih _ (named.add request 86400)
  intro id h held
  refine adds State.fresh nofun id h ?_
  rw [← held]
  refine (State.hash_congr (State.live_congr ?_ 1)).symm
  exact armFreeze_store (ne_of_mem_of_not_mem (QueueKeys.metadataKey_mem id) outside) frozenUntil thawRequestCount false _

/-- Two grants, of which the first is frozen. -/
def frozenStore : State :=
  tenantStore [tenantRequest "first" (some "a"), tenantRequest "second" (some "b")] "ns:grant:a:freezeState" 1000 0

/-- The request of the frozen grant is the one a pass leaves. -/
theorem grants_isolated_frozen :
    tenantClient.payable (fun _ => none) (tenantRequest "first" (some "a")).cost = false ∨
      (soleRuns (clientQueue "ns") tenantClient fun _ => none).Passes
        (Declines (clientQueue "ns") tenantClient (tenantRequest "first" (some "a")).grantId)
        (System.sole tenantClient frozenStore 10) (calls 10 15) ∨
      ∃ grantId ∈ lastFrozen (clientQueue "ns") tenantClient []
        (System.sole tenantClient frozenStore 10) (calls 10 15),
        (tenantRequest "first" (some "a")).grantId = some grantId :=
  grants_isolated tenant_separate rfl ((tenantStore_named _ (outside_queue (by decide) (by decide)) _ _).sourced
    (sourced_later (by norm_num) _)) (Timed.Machine.valid_of_checks soleRuns_of_test (by decide +kernel))
    (by decide +kernel) (by decide +kernel) "first" (by decide +kernel)
      (tenantRequest "first" (some "a")) (by decide +kernel) rfl

end Tests

end Dianemo
