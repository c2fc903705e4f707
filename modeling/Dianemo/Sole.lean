import Dianemo.Turns

namespace Dianemo

open JsNumber Resumption Client

section Freezes

variable {s s' : State} {key field : String} {t now : ℚ}

theorem canProcess_iff :
    (canProcessRequest s key now).canProcess = true ↔
      ∀ deadline, usableDeadline (s.hget key "frozenUntil" now) = some deadline → deadline ≤ now := by
  unfold canProcessRequest readFreezeState
  cases usableDeadline (s.hget key "frozenUntil" now) with
  | none => simp
  | some deadline =>
    dsimp only
    by_cases over_ : deadline ≤ now ∧ parseFiniteStored (s.hget key "thawRequestCount" now) 0 ≤ 0
    · rw [if_pos over_]
      simp [over_.1]
    · rw [if_neg over_]
      by_cases future : now < deadline
      · simp [future]
      · simp [future, not_lt.mp future]

theorem hget_later (order : t ≤ now) (s : State) (key field : String) :
    s.hget key field now = none ∨ s.hget key field now = s.hget key field t := by
  unfold State.hget
  rcases s.hash_later order key with gone | same
  · exact .inl (by rw [gone, Option.bind_none])
  · exact .inr (by rw [same])

/-- A freeze that lets requests through goes on doing so. -/
theorem canProcess_later (order : t ≤ now) (free : (canProcessRequest s key t).canProcess = true) :
    (canProcessRequest s key now).canProcess = true := by
  rw [canProcess_iff] at free ⊢
  intro deadline there
  rcases hget_later order s key "frozenUntil" with gone | same
  · rw [gone] at there
    cases there
  · rw [same] at there
    exact (free deadline there).trans order

theorem canProcess_congr (same : s'.live key now = s.live key now) :
    canProcessRequest s' key now = canProcessRequest s key now := by
  have fields : ∀ field, s'.hget key field now = s.hget key field now := fun field => State.hget_congr same field
  simp only [canProcessRequest, readFreezeState, fields]

end Freezes

section Calls

variable {q : QueueKeys} {client : Client} {now : ℚ} {s : State}

/-- The queue, the freezes and the frozen grants of a client have keys of their own. -/
structure Client.Separate (client : Client) (q : QueueKeys) : Prop where
  grants : client.frozenGrantsKey ∉ q.keys
  freezes : ∀ grantId, client.freezeStateKey grantId ∉ q.keys
  apart : ∀ grantId, client.freezeStateKey grantId ≠ client.frozenGrantsKey

/-- The budgets a call writes to lie outside the queue and the freezes. -/
def Call.Clear (q : QueueKeys) (client : Client) (now : ℚ) (s : State) : Call → Prop
  | .claim budget => Keeps (q.keys ∪ Set.range client.freezeStateKey) now s (budget.exec now s).2
  | .releaseClaim release => Keeps (q.keys ∪ Set.range client.freezeStateKey) now s (release.exec now s).2
  | .releaseUnusedAdmission release => Keeps (q.keys ∪ Set.range client.freezeStateKey) now s (release.exec now s).2
  | _ => True

theorem Keeps.queue {s' : State} {W : Set String} (keeps : Keeps (q.keys ∪ W) now s s') : Keeps q.keys now s s' :=
  ⟨fun k member => keeps.live k (.inl member), keeps.epochs⟩

theorem Call.Clear.apart {c : Call} (clear : c.Clear q client now s) (separate : client.Separate q) :
    c.Apart q client now s := by
  cases c with
  | tryStartThawRequest id grantId anyGrant => exact separate.grants
  | claim budget => exact Keeps.queue clear
  | releaseClaim release => exact Keeps.queue clear
  | releaseUnusedAdmission release => exact Keeps.queue clear
  | _ => trivial

theorem writeStatus_live_ne {key other : String} (ne : other ≠ key) (s : State) (status : Option String) (now : ℚ) :
    (writeStatus s key status now).live other now = s.live other now := by
  cases status with
  | none => rfl
  | some status =>
    rw [writeStatus, State.live_congr (State.eraseField_store_ne ne _ _), State.setFields_live_ne ne]

/-- What a pass does to its queue leaves every key outside it. -/
theorem updateRequest_live_outside {key : String} (outside : key ∉ q.keys) (s : State) (id : String)
    (updates : RequestUpdates) : (updateRequest q s id updates now).live key now = s.live key now := by
  have ne : key ≠ q.metadataKey id := ne_of_mem_of_not_mem (QueueKeys.metadataKey_mem id) outside |>.symm
  have off : key ≠ q.queueKey := ne_of_mem_of_not_mem QueueKeys.queueKey_mem outside |>.symm
  unfold updateRequest
  split
  · rfl
  · split
    · rfl
    · dsimp only
      split
      · rw [State.setScore_live_ne off, State.setFields_live_ne ne, writeStatus_live_ne ne]
      · rw [State.setFields_live_ne ne, writeStatus_live_ne ne]

theorem removeRequest_live_outside {key : String} (outside : key ∉ q.keys) (s : State)
    (id : String) (ttl : JsNumber) :
    (removeRequest q s id ttl now).2.live key now = s.live key now := by
  have ne : ∀ other, other ∈ q.keys → key ≠ other := fun other member => (ne_of_mem_of_not_mem member outside).symm
  refine State.live_congr ?_ now
  rw [removeRequest_store ttl s (ne _ QueueKeys.queueKey_mem), if_neg (ne _ (QueueKeys.tombstoneKey_mem id)),
    if_neg (ne _ (QueueKeys.metadataKey_mem id))]

/-- The call claims from a budget or hands some of it back. -/
def Call.isBudget : Call → Bool
  | .claim _ => true
  | .releaseClaim _ => true
  | .releaseUnusedAdmission _ => true
  | _ => false

/-- The other calls of a pass reach the queue and the frozen grants alone. -/
theorem Call.exec_outside {key : String} {c : Call} (budgetless : c.isBudget = false) (outside : key ∉ q.keys)
    (ne : key ≠ client.frozenGrantsKey) (outlook : Outlook) :
    (c.exec q client outlook now s).2.live key now = s.live key now := by
  have entry : ∀ id, key ≠ q.metadataKey id :=
    fun id => (ne_of_mem_of_not_mem (QueueKeys.metadataKey_mem id) outside).symm
  cases c with
  | getNextRequest skipGrantIds skipRequestIds =>
    simp only [Call.exec]
    cases next : nextId q s skipGrantIds skipRequestIds now with
    | none => rw [getNextRequest_of_none next]
    | some id =>
      obtain ⟨h, -, -, -, run⟩ := getNextRequest_of_some next
      rw [run]
      exact State.setFields_live_ne (entry id) s now _
  | tryStartThawRequest id grantId anyGrant =>
    obtain ⟨u, marks, run⟩ := tryStartThawRequest_marks q s client.frozenGrantsKey id grantId anyGrant now
    have same : u.live key now = s.live key now := (marks {key} (Ne.symm ne)).live _ rfl
    rw [Call.exec, run]
    split
    · exact same
    · split
      · exact same
      · exact (State.setFields_live_ne (entry id) u now _).trans same
  | claim budget => cases budgetless
  | releaseClaim release => cases budgetless
  | releaseUnusedAdmission release => cases budgetless
  | confirmRequest id since =>
    simp only [Call.exec]
    rcases confirmRequest_cases q s id since now with run | ⟨h, -, -, -, -, run⟩
    · rw [run]
    · rw [run]
      exact State.live_congr (State.eraseField_store_ne (entry id) s _) now
  | updateRequest id updates => exact updateRequest_live_outside outside s id updates
  | removeRequest id => exact removeRequest_live_outside outside s id _
  | _ => rfl

/-- No call of a pass changes a freeze. -/
theorem Call.exec_freeze {c : Call} (clear : c.Clear q client now s)
    (separate : client.Separate q) (outlook : Outlook) (grantId : Option String) :
    (c.exec q client outlook now s).2.live (client.freezeStateKey grantId) now =
      s.live (client.freezeStateKey grantId) now := by
  cases budget : c.isBudget with
  | false => exact c.exec_outside budget (separate.freezes grantId) (separate.apart grantId) outlook
  | true =>
    cases c with
    | claim budget => exact clear.live _ (.inr ⟨grantId, rfl⟩)
    | releaseClaim release => exact clear.live _ (.inr ⟨grantId, rfl⟩)
    | releaseUnusedAdmission release => exact clear.live _ (.inr ⟨grantId, rfl⟩)
    | _ => cases budget

/-- A probe of the claim's budget is out already, the claim's own entry has
lapsed, or the budget cannot be read as one. -/
def Call.Hindered (q : QueueKeys) (now : ℚ) (s : State) : Call → Prop
  | .tryStartThawRequest requestId grantId anyGrant =>
    (∃ other ∈ s.sorted q.queueKey now, other ≠ requestId ∧
      isCompetingProbe q s other grantId anyGrant now = true) ∨ q.item s now requestId = none
  | .claim budget => ((budget.exec now s).1.toOption.elim false fun res => res.error.isSome) = true
  | _ => False

instance (q : QueueKeys) (now : ℚ) (s : State) : (c : Call) → Decidable (c.Hindered q now s)
  | .tryStartThawRequest requestId grantId anyGrant =>
      inferInstanceAs (Decidable ((∃ other ∈ s.sorted q.queueKey now,
      other ≠ requestId ∧ isCompetingProbe q s other grantId anyGrant now = true) ∨ q.item s now requestId = none))
  | .claim budget =>
    inferInstanceAs (Decidable (((budget.exec now s).1.toOption.elim false fun res => res.error.isSome) = true))
  | .smembers _ => .isFalse id
  | .getNextRequest _ _ => .isFalse id
  | .canProcessRequest _ => .isFalse id
  | .releaseClaim _ => .isFalse id
  | .releaseUnusedAdmission _ => .isFalse id
  | .getRequest _ => .isFalse id
  | .confirmRequest _ _ => .isFalse id
  | .updateRequest _ _ => .isFalse id
  | .removeRequest _ => .isFalse id
  | .now => .isFalse id
  | .requestReady _ => .isFalse id
  | .costProblem _ => .isFalse id
  | .failWaitingRequest _ => .isFalse id

/-- Unhindered, a nomination goes out. -/
theorem tryStartThawRequest_started {frozenGrantsKey : String}
    (avoid : frozenGrantsKey ∉ q.keys) {id grantId : String}
    {anyGrant : Bool} (clear : ¬ (Call.tryStartThawRequest id grantId anyGrant).Hindered q now s) :
    (tryStartThawRequest q s frozenGrantsKey id grantId anyGrant now).1 = true := by
  obtain ⟨u, joined, run⟩ := tryStartThawRequest_run avoid s id grantId anyGrant now
  rw [run, if_neg, if_neg]
  · intro gone
    refine clear (.inr ?_)
    rw [← item_keeps joined]
    exact Option.isNone_iff_eq_none.mp gone
  · intro found
    obtain ⟨other, member, competes⟩ := List.any_eq_true.mp found
    rw [State.sorted_congr (joined.live _ QueueKeys.queueKey_mem)] at member
    rw [Bool.and_eq_true, decide_eq_true_eq, isCompetingProbe_keeps joined] at competes
    exact clear (.inl ⟨other, member, competes⟩)

end Calls

/-- The reply turns a request away for the moment. -/
def Call.refused : (c : Call) → Except DrainError (Reply c) → Bool
  | .canProcessRequest _, .ok res => !res.canProcess
  | .tryStartThawRequest _ _ _, .ok started => !started
  | .claim _, .ok res => !res.acquired
  | _, _ => false

/-- The frozen grants as a pass last read them. -/
def frozenAfter (frozen : List String) : (c : Call) → Except DrainError (Reply c) → List String
  | .smembers _, .ok members => members
  | _, _ => frozen

/-- The claim at hand after a call. -/
def claimAfter (request : Option QueuedRequest) : (c : Call) → Except DrainError (Reply c) → Option QueuedRequest
  | .getNextRequest _ _, reply => reply.toOption.join
  | _, _ => request

/-- What a pass alone with its queue finds, and what it was told. -/
structure Stage where
  store : State
  clock : ℚ
  request : Option QueuedRequest
  frozen : List String
  /-- The budgets that declined, each by its grant. -/
  declined : List (Option String)

/-- A call of the pass is answered. -/
def Stage.call (q : QueueKeys) (client : Client) (w : Stage) (outlook : Outlook) (now : ℚ) (c : Call) :
    Except DrainError (Reply c) × Stage :=
  let out := c.exec q client outlook now w.store
  (out.1,
    { store := out.2
      clock := now
      request := claimAfter w.request c out.1
      frozen := frozenAfter w.frozen c out.1
      declined := (if c.refused out.1 then (w.request.map QueuedRequest.grantId).toList else []) ++ w.declined })

/-- The world of a pass that is alone with its queue and hindered by nothing. -/
def soleWorld (q : QueueKeys) (client : Client) (limits : Limits) : World Call Reply DrainError Stage where
  allows _ _ := True
  answers w c reply w' := ∃ now outlook, w.clock ≤ now ∧ c.Clear q client now w.store ∧
    (∀ cost, c = .costProblem cost → outlook.costProblem = limits cost) ∧ ¬ c.Hindered q now w.store ∧
    (∃ r, reply = .ok r) ∧ (reply, w') = w.call q client outlook now c

section Onward

variable {q : QueueKeys} {client : Client} {limits : Limits} {w w' w'' : Stage} {t now : ℚ} {s s' s'' : State}

/-- Every entry of `s'` is one of `s` but for its volatile fields. -/
def Sourced (q : QueueKeys) (t : ℚ) (s : State) (now : ℚ) (s' : State) : Prop :=
  ∀ id h', q.item s' now id = some h' → ∃ h, q.item s t id = some h ∧ Faithful h h'

/-- Every entry carries its own id. -/
def Named (q : QueueKeys) (now : ℚ) (s : State) : Prop :=
  ∀ id h, q.item s now id = some h → h.lookup "requestId" = some (.text id)

theorem Sourced.trans {u : ℚ} (first : Sourced q t s now s') (second : Sourced q now s' u s'') :
    Sourced q t s u s'' := by
  intro id h'' found
  obtain ⟨h', found', faithful'⟩ := second id h'' found
  obtain ⟨h, found, faithful⟩ := first id h' found'
  exact ⟨h, found, faithful.trans faithful'⟩

theorem sourced_later (order : t ≤ now) (s : State) : Sourced q t s now s := by
  intro id h found
  rcases item_later order s id with gone | same
  · rw [gone] at found
    cases found
  · exact ⟨h, same.symm.trans found, fun _ _ => rfl⟩

theorem Named.sourced (named : Named q t s) (sourced : Sourced q t s now s') : Named q now s' := by
  intro id h' found
  obtain ⟨h, found, faithful⟩ := sourced id h' found
  rw [faithful "requestId" (by decide)]
  exact named id h found

theorem Named.add (named : Named q now s) (request : QueuedRequest) (ttl : JsNumber) :
    Named q now ((addRequest q request ttl now).run s).2 := by
  rcases addRequest_run q request ttl now s with ⟨e, run⟩ | ⟨run, -⟩ | ⟨score, seconds, whole, -, absent, run⟩
  · rw [run]
    exact named
  · rw [run]
    exact named
  · rw [run]
    intro id h held
    rw [item_enqueue_self whole.pos absent] at held
    by_cases same : id = request.requestId
    · subst same
      rw [Function.update_self] at held
      cases held
      exact request.fields_requestId ∅
    · rw [Function.update_of_ne same] at held
      exact named id h held

/-- What any stretch of such a pass leaves. -/
structure Onward (q : QueueKeys) (client : Client) (w w' : Stage) : Prop where
  order : w.clock ≤ w'.clock
  sourced : Named q w.clock w.store → Sourced q w.clock w.store w'.clock w'.store
  declined : w.declined ⊆ w'.declined
  free : ∀ grantId, (canProcessRequest w.store (client.freezeStateKey grantId) w.clock).canProcess = true →
    (canProcessRequest w'.store (client.freezeStateKey grantId) w'.clock).canProcess = true

theorem Onward.refl (w : Stage) : Onward q client w w :=
  ⟨le_rfl, fun _ => sourced_later le_rfl _, List.Subset.refl _, fun _ free => free⟩

theorem Onward.trans (first : Onward q client w w') (second : Onward q client w' w'') : Onward q client w w'' where
  order := first.order.trans second.order
  sourced named := (first.sourced named).trans (second.sourced (named.sourced (first.sourced named)))
  declined := List.Subset.trans first.declined second.declined
  free grantId free := second.free grantId (first.free grantId free)

theorem Onward.idle (order : w.clock ≤ now) : Onward q client w { w with clock := now } :=
  ⟨order, fun _ => sourced_later order _, List.Subset.refl _, fun _ free => canProcess_later order free⟩

theorem onward_of_answers (separate : client.Separate q) {c : Call} {reply : Except DrainError (Reply c)}
    (answers : (soleWorld q client limits).answers w c reply w') : Onward q client w w' := by
  obtain ⟨now, outlook, order, clear, -, -, -, run⟩ := answers
  obtain ⟨-, rfl⟩ := Prod.mk.inj run
  refine ⟨order, ?_, List.subset_append_right _ _, ?_⟩
  · intro named
    have waited : Sourced q w.clock w.store now w.store := sourced_later order w.store
    have same := c.exec_same (clear.apart separate) (named.sourced waited) outlook
    exact waited.trans same
  · intro grantId free
    dsimp only [Stage.call]
    rw [canProcess_congr (c.exec_freeze clear separate outlook grantId)]
    exact canProcess_later order free

end Onward

section Calm

variable {q : QueueKeys} {client : Client} {limits : Limits} {w w' w'' : Stage} {l l' : PassLocals}
    {request : QueuedRequest}

/-- A stretch of one turn: nothing is skipped that was not before. -/
structure Within (q : QueueKeys) (client : Client) (w : Stage) (l : PassLocals) (w' : Stage)
    (l' : PassLocals) : Prop where
  onward : Onward q client w w'
  request : w'.request = w.request
  blocked : l'.blockedGrantIds = l.blockedGrantIds
  skipped : l'.skippedRequestIds = l.skippedRequestIds

theorem Within.refl (w : Stage) (l : PassLocals) : Within q client w l w l := ⟨.refl w, rfl, rfl, rfl⟩

theorem Within.trans {l'' : PassLocals} (first : Within q client w l w' l')
    (second : Within q client w' l' w'' l'') : Within q client w l w'' l'' :=
  ⟨first.onward.trans second.onward, second.request.trans first.request, second.blocked.trans first.blocked,
    second.skipped.trans first.skipped⟩

/-- Only a call that takes up the next claim changes the one at hand. -/
def Call.isTurn : Call → Bool
  | .getNextRequest _ _ => true
  | _ => false

theorem within_of_answers (separate : client.Separate q) {c : Call} (same : c.isTurn = false)
    {reply : Except DrainError (Reply c)}
    (answers : (soleWorld q client limits).answers w c reply w') : Within q client w l w' l := by
  refine ⟨onward_of_answers separate answers, ?_, rfl, rfl⟩
  obtain ⟨now, outlook, -, -, -, -, -, run⟩ := answers
  obtain ⟨-, rfl⟩ := Prod.mk.inj run
  cases c with
  | getNextRequest skipGrantIds skipRequestIds => cases same
  | _ => rfl

/-- Whatever it is answered, it throws nothing and leaves what is skipped. -/
def Calm (q : QueueKeys) (client : Client) (limits : Limits) {α : Type} (x : Pass α) : Prop :=
  ∀ w l, x.Abides (soleWorld q client limits) (fun out l' w' => (∃ a, out = .ok a) ∧ Within q client w l w' l') w l

namespace Calm

theorem pure {α : Type} (a : α) : Calm q client limits (pure a : Pass α) := fun w l => ⟨⟨a, rfl⟩, .refl w l⟩

theorem locals : Calm q client limits (Act.locals : Pass PassLocals) := fun w l => ⟨⟨l, rfl⟩, .refl w l⟩

theorem update {f : PassLocals → PassLocals}
    (keeps : ∀ l, (f l).blockedGrantIds = l.blockedGrantIds ∧ (f l).skippedRequestIds = l.skippedRequestIds) :
    Calm q client limits (Act.update f : Pass Unit) :=
  fun w l => ⟨⟨(), rfl⟩, .refl w, rfl, (keeps l).1, (keeps l).2⟩

/-- What follows may count on all that was. -/
theorem andThen {α β : Type} {x : Pass α} {f : α → Pass β} {Q : Except DrainError β → PassLocals → Stage → Prop}
    (calm : Calm q client limits x)
    (rest : ∀ a w' l', Within q client w l w' l' → (f a).Abides (soleWorld q client limits) Q w' l') :
    (x >>= f).Abides (soleWorld q client limits) Q w l := by
  rw [Act.abides_bind]
  refine (calm w l).mono ?_
  rintro out l' w' ⟨⟨a, rfl⟩, kept⟩
  exact rest a w' l' kept

theorem bind {α β : Type} {x : Pass α} {f : α → Pass β} (first : Calm q client limits x)
    (rest : ∀ a, Calm q client limits (f a)) : Calm q client limits (x >>= f) := by
  intro w l
  refine first.andThen ?_
  intro a w' l' kept
  refine (rest a w' l').mono ?_
  rintro out l'' w'' ⟨done, kept'⟩
  exact ⟨done, kept.trans kept'⟩

theorem tryCatch {α : Type} {x : Pass α} (calm : Calm q client limits x) (handle : DrainError → Pass α) :
    Calm q client limits (tryCatch x handle) := by
  intro w l
  rw [Act.abides_tryCatch]
  refine (calm w l).mono ?_
  rintro out l' w' ⟨⟨a, rfl⟩, kept⟩
  exact ⟨⟨a, rfl⟩, kept⟩

variable (separate : client.Separate q)

include separate

theorem ask {c : Call} (same : c.isTurn = false) : Calm q client limits (ask c) := by
  intro w l
  refine Act.abides_call.mpr ⟨trivial, ?_⟩
  intro reply w' answers
  refine ⟨?_, within_of_answers separate same answers⟩
  obtain ⟨now, outlook, -, -, -, -, done, -⟩ := answers
  exact done

theorem tryAsk {c : Call} (same : c.isTurn = false) : Calm q client limits (tryAsk c) := by
  intro w l
  refine Act.abides_attempt.mpr ⟨trivial, ?_⟩
  intro reply w' answers
  exact ⟨⟨_, rfl⟩, within_of_answers separate same answers⟩

theorem releaseAll {call : BudgetRelease → Call} (same : ∀ release, (call release).isTurn = false)
    (releases : List BudgetRelease) : Calm q client limits (releaseAll call releases) := by
  induction releases with
  | nil => exact .pure _
  | cons release rest ih => exact .bind (ask separate (same release)) fun _ => ih

theorem confirm : Calm q client limits (confirm request) := by
  refine .bind (.update fun _ => ⟨rfl, rfl⟩) fun _ => .bind ?_ fun confirmed => ?_
  · unfold confirmRequestInQueue
    split
    · exact .pure _
    · exact ask separate rfl
  · split
    · exact .pure _
    · exact .bind (.update fun _ => ⟨rfl, rfl⟩) fun _ => .pure _

theorem returnToQueue : Calm q client limits (returnToQueue request) := by
  have writes : Calm q client limits (writeBack request) := by
    refine .bind .locals fun l => ?_
    split
    · exact .bind (.update fun _ => ⟨rfl, rfl⟩) fun _ => ask separate rfl
    · exact ask separate rfl
  refine .bind .locals fun l => ?_
  split
  · exact .pure _
  · exact writes
  · refine .bind (confirm separate) fun confirmed => ?_
    split
    · exact writes
    · exact .pure _

theorem releaseGoneClaim : Calm q client limits (client.releaseGoneClaim request) := by
  refine .bind .locals fun l => ?_
  dsimp only
  split
  · exact releaseAll separate (fun _ => rfl) _
  · refine .bind (tryAsk separate rfl) fun now => ?_
    split
    · exact .pure _
    · split
      · exact .pure _
      · exact releaseAll separate (fun _ => rfl) _

theorem scheduleDrainForFreeze (frozenUntil : Option ℚ) (grantId : Option String) :
    Calm q client limits (client.scheduleDrainForFreeze frozenUntil grantId) := by
  unfold Client.scheduleDrainForFreeze
  split
  · exact .bind (tryAsk separate rfl) fun _ => .pure _
  · refine .bind (tryAsk separate rfl) fun state => ?_
    split
    · exact .pure _
    · split
      · exact .pure _
      · exact .bind (tryAsk separate rfl) fun _ => .pure _

theorem failWaiter : Calm q client limits (failWaiter request) := by
  refine .bind (ask separate rfl) fun failed => ?_
  split
  · exact .bind (tryAsk separate rfl) fun _ => .pure _
  · exact .pure _

theorem failUnsatisfiable : Calm q client limits (client.failUnsatisfiable request) := by
  unfold Client.failUnsatisfiable
  split
  · exact .pure _
  · refine .bind (ask separate rfl) fun problem => ?_
    split
    · exact .pure _
    · exact failWaiter separate

theorem foundGone : Calm q client limits (client.foundGone request) := by
  unfold Client.foundGone
  split
  · refine .bind (tryAsk separate rfl) fun entry => ?_
    split
    · exact .pure _
    · exact .pure _
  · exact .pure _

/-- A claim that got its turn is handed over or left, and the loop goes on. -/
theorem dispatch : (client.dispatch request).Abides (soleWorld q client limits)
    (fun out l' w' => out = .ok .next ∧ Within q client w l w' l') w l := by
  have gone : ∀ {w' : Stage} {l' : PassLocals}, Within q client w l w' l' → (do
      client.releaseGoneClaim request
      Pure.pure .next : Pass Flow).Abides (soleWorld q client limits)
        (fun out l' w' => out = .ok .next ∧ Within q client w l w' l') w' l' := by
    intro w' l' kept
    refine (releaseGoneClaim separate).andThen ?_
    intro _ w'' l'' kept'
    exact ⟨rfl, kept.trans kept'⟩
  refine (foundGone separate).andThen ?_
  intro found w₁ l₁ kept₁
  split
  · exact gone kept₁
  refine (confirm separate).andThen ?_
  intro confirmed w₂ l₂ kept₂
  have kept₂ := kept₁.trans kept₂
  split
  · refine (foundGone separate).andThen ?_
    intro found w₃ l₃ kept₃
    have kept₃ := kept₂.trans kept₃
    split
    · exact gone kept₃
    · exact ⟨rfl, kept₃⟩
  · refine locals.andThen ?_
    intro l w₃ l₃ kept₃
    have kept₃ := kept₂.trans kept₃
    refine (ask separate rfl).andThen ?_
    intro _ w₄ l₄ kept₄
    exact ⟨rfl, kept₃.trans kept₄⟩

end Calm

end Calm

end Dianemo
