import Dianemo.Life

namespace Dianemo

open JsNumber

variable {ι : Type} [DecidableEq ι]

/-- The retry count an entry is handed out with. -/
def storedRetries (h : Fields) : JsNumber := (parseInt (h.lookup "retries")).orDefault 0

/-- An owner counts a retry once its attempt is back, and makes the entry pending
again under a count that no attempt still holding a slot has. -/
def Event.Counted (q : QueueKeys) (now : ℚ) (sys : System ι) : Event ι → Prop
  | .add request ttl => ((addRequest q request ttl now).run sys.store).1 = .ok true →
      ∀ a ∈ sys.record.slots, a.request.requestId = request.requestId →
        a.request.retries ≠ storedRetries (withFields ∅ request.fields)
  | .recount id _ => 0 < sys.record.handed id
  | .retry id => ∀ h, q.item sys.store now id = some h → ∀ a ∈ sys.record.slots, a.request.requestId = id →
      a.request.retries ≠ storedRetries h
  | _ => True

/-- Runs whose attempts hold their slots past the end of their entry, and past
their own end. -/
def slotRuns (q : QueueKeys) (clients : ι → Client) : Timed.Machine ℚ (System ι) (Event ι) where
  step now e sys := sys.step q clients now e
  allowed now e sys := (e.Fair q clients now sys ∧ e.Answered) ∧ e.Counted q now sys

/-- The entry went while the pass held its claim, and can come back to nobody. -/
def Dead (q : QueueKeys) (t : ℚ) (sys : System ι) (i : ι) (id : String) (x : ℚ) : Prop :=
  sys.record.phase id = .claimed i x ∧ q.item sys.store t id = none

/-- How the attempts that hold slots stand to the entries and claims. -/
structure Slotted (q : QueueKeys) (t : ℚ) (sys : System ι) : Prop where
  whole : ∀ id h, q.item sys.store t id = some h → sys.record.phase id ≠ .idle → Whole h
  entries : ∀ id h, q.item sys.store t id = some h → (∀ j, sys.record.phase id ≠ .handed j) →
    ∀ a ∈ sys.record.slots, a.request.requestId = id → a.request.retries ≠ storedRetries h
  claims : ∀ i v x, sys.views i = some v → v.request.claimedAt = some x →
    sys.record.phase v.request.requestId = .claimed i x ∨ sys.record.phase v.request.requestId = .confirmed i x →
    ∀ a ∈ sys.record.slots, a.request.requestId = v.request.requestId → a.request.retries ≠ v.request.retries
  gone : ∀ i v x, sys.views i = some v → v.request.claimedAt = some x → v.gone = true →
    Dead q t sys i v.request.requestId x ∨ queueClaimLeaseMs ≤ t - x
  unbroken : ∀ i v x, sys.views i = some v → v.request.claimedAt = some x → v.unbroken = true →
    Dead q t sys i v.request.requestId x

section Steps

variable {q : QueueKeys} {clients : ι → Client} {now t : ℚ} {sys sys' : System ι} {id : String}
    {i : ι} {x : ℚ} {e : Event ι}

omit [DecidableEq ι] in
theorem Dead.later (dead : Dead q t sys i id x) (order : t ≤ now) : Dead q now sys i id x := by
  refine ⟨dead.1, ?_⟩
  rcases item_later order sys.store id with gone | same
  · exact gone
  · exact same.trans dead.2

/-- No step brings a dead entry back. -/
theorem Dead.step (orderly : Orderly q now sys) (dead : Dead q now sys i id x)
    (life : Life q clients now sys e id sys') : Dead q now sys' i id x := by
  obtain ⟨claimed, absent⟩ := dead
  cases life with
  | kept phase slots attempts item =>
    refine ⟨phase.trans claimed, ?_⟩
    rw [Option.eq_none_iff_forall_ne_some]
    intro h' found
    obtain ⟨h, held, -⟩ := item h' found
    rw [absent] at held
    cases held
  | claimed event call held =>
    rw [absent] at held
    cases held
  | confirmed event call view fits mine unlapsed held =>
    rw [absent] at held
    cases held
  | returned event call view fits mine held =>
    rw [absent] at held
    cases held
  | handed event call view fits named mine =>
    rw [claimed] at mine
    cases mine
  | added event named whole gone accepted owner =>
    have used : id ∈ sys.record.used := by
      by_contra fresh
      rw [orderly.unused id fresh] at claimed
      cases claimed
    obtain ⟨j, handed⟩ := owner used
    rw [claimed] at handed
    cases handed
  | retried event theirs =>
    rw [claimed] at theirs
    cases theirs

omit [DecidableEq ι] in
theorem Slotted.later (slotted : Slotted q t sys) (order : t ≤ now) : Slotted q now sys := by
  have same : ∀ id h, q.item sys.store now id = some h → q.item sys.store t id = some h := by
    intro id h found
    rcases item_later order sys.store id with gone | same
    · rw [gone] at found
      cases found
    · exact same.symm.trans found
  refine ⟨fun id h found => slotted.whole id h (same id h found),
    fun id h found => slotted.entries id h (same id h found), slotted.claims, ?_, ?_⟩
  · intro i v x view stamp gone
    rcases slotted.gone i v x view stamp gone with dead | late
    · exact .inl (dead.later order)
    · exact .inr (late.trans (by linarith))
  · intro i v x view stamp unbroken
    exact (slotted.unbroken i v x view stamp unbroken).later order

/-- A status written to an entry, its holder's write-back included, leaves its retry count. -/
theorem storedRetries_pending {updates : RequestUpdates} (h : Fields)
    (shape : updates = { status := some "pending", isThawRequest := some false } ∨
      updates = { status := some "pending" }) : storedRetries (updates.apply h) = storedRetries h := by
  unfold storedRetries
  rcases shape with rfl | rfl
  · simp [RequestUpdates.apply, RequestUpdates.fields, finiteUpdate, withFields, AList.lookup_insert_ne,
      AList.lookup_erase_ne]
  · simp [RequestUpdates.apply, RequestUpdates.fields, finiteUpdate, withFields, AList.lookup_insert_ne,
      AList.lookup_erase_ne]

theorem Slotted.step_whole (slotted : Slotted q now sys) (life : Life q clients now sys e id sys') {h' : Fields}
    (found : q.item sys'.store now id = some h') (busy : sys'.record.phase id ≠ .idle) : Whole h' := by
  cases life with
  | kept phase slots attempts item =>
    obtain ⟨h, held, faithful, -⟩ := item h' found
    rw [phase] at busy
    exact (slotted.whole id h held busy).faithful faithful
  | claimed event call held free whole after =>
    subst after
    dsimp only at found
    rw [item_setFields held, Function.update_self] at found
    cases found
    exact whole.faithful (.claimed _ now)
  | confirmed event call view fits mine unlapsed held after =>
    subst after
    dsimp only at found
    rw [item_eraseField held, Function.update_self] at found
    cases found
    exact (slotted.whole id _ held (by simp [mine])).faithful (.erase _)
  | returned event call view fits mine held after =>
    subst after
    exact absurd (Function.update_self _ _ _) busy
  | handed event call view fits named mine after =>
    subst after
    exact slotted.whole id h' found (by simp [mine])
  | added event named whole absent accepted owner after =>
    subst after
    exact absurd (Function.update_self _ _ _) busy
  | retried event theirs held after =>
    subst after
    exact absurd (Function.update_self _ _ _) busy

theorem Slotted.step_entries (slotted : Slotted q now sys) (orderly : Orderly q now sys)
    (counted : e.Counted q now sys)
    (life : Life q clients now sys e id sys') {h' : Fields} (found : q.item sys'.store now id = some h')
    (free : ∀ j, sys'.record.phase id ≠ .handed j) {a : Dispatch ι} (holds : a ∈ sys'.record.slots)
    (named : a.request.requestId = id) : a.request.retries ≠ storedRetries h' := by
  cases life with
  | kept phase slots attempts item =>
    rw [phase] at free
    obtain ⟨h, held, -, -, -, count, -⟩ := item h' found
    have before := slotted.entries id h held free a (slots a holds named) named
    rcases count with same | ⟨retries, rfl⟩
    · rwa [storedRetries, same]
    · obtain ⟨j, handed⟩ := orderly.handed_phase counted
      exact absurd handed (free j)
  | @claimed i outlook _ _ _ h event call held claimable_ whole after =>
    subst after
    dsimp only at found
    rw [item_setFields held, Function.update_self] at found
    cases found
    have unheld := (orderly.reads id h held).of_claimable claimable_
    have waiting : ∀ j, sys.record.phase id ≠ .handed j := by
      intro j handed
      rcases unheld with idle | ⟨k, y, claimed, -⟩
      · rw [idle] at handed
        cases handed
      · rw [claimed] at handed
        cases handed
    rw [storedRetries, lookup_claimFields h now (by decide)]
    exact slotted.entries id h held waiting a holds named
  | @confirmed i outlook _ h v x event call view fits mine unlapsed held after =>
    subst after
    dsimp only at found
    rw [item_eraseField held, Function.update_self] at found
    cases found
    rw [storedRetries, AList.lookup_erase_ne (by decide)]
    exact slotted.entries id h held (by simp [mine]) a holds named
  | @returned i outlook updates _ h v x event call view fits mine held after =>
    subst after
    dsimp only at found
    rw [item_updateRequest held (orderly.named id h held), Function.update_self] at found
    cases found
    rw [storedRetries_pending h (fits.2.2.2.imp (fun same => same) And.left)]
    exact slotted.entries id h held (by simp [mine]) a holds named
  | @handed i outlook request _ v x event call view fits own mine after =>
    subst after
    obtain ⟨-, -, -, -, rfl⟩ := fits
    subst own
    exact absurd (Function.update_self _ _ _) (free i)
  | @added request ttl score seconds event own whole absent accepted owner after =>
    subst after event own
    dsimp only at found
    rw [item_enqueue_self whole.pos absent, Function.update_self] at found
    cases found
    exact counted accepted a holds named
  | @retried i h event theirs held after =>
    subst after event
    dsimp only at found
    rw [item_updateRequest held (orderly.named id h held), Function.update_self] at found
    cases found
    rw [storedRetries_pending h (.inr rfl)]
    exact counted h held a holds named

/-- A claim that goes on being its pass's was so before, unless it was just taken. -/
theorem Slotted.step_claims (slotted : Slotted q now sys) (orderly : Orderly q now sys)
    (lives : ∀ id, Life q clients now sys e id (sys.step q clients now e)) (answered : e.Answered) {v : ClaimView}
    (view : (sys.step q clients now e).views i = some v) (stamp : v.request.claimedAt = some x)
    (mine : (sys.step q clients now e).record.phase v.request.requestId = .claimed i x ∨
      (sys.step q clients now e).record.phase v.request.requestId = .confirmed i x) {a : Dispatch ι}
    (holds : a ∈ (sys.step q clients now e).record.slots) (named : a.request.requestId = v.request.requestId) :
    a.request.retries ≠ v.request.retries := by
  have life := lives v.request.requestId
  rcases sys.step_view answered view with ⟨outlook, skipGrantIds, skipRequestIds, next, rfl, at_, found, -⟩ |
    ⟨w, before, other, shape⟩
  · -- the claim was taken in this step
    cases next' : nextId q sys.store skipGrantIds skipRequestIds now with
    | none =>
      rw [getNextRequest_of_none next'] at found
      cases found
    | some id =>
      obtain ⟨h, held, free, -, run⟩ := getNextRequest_of_some next'
      rw [run] at found
      obtain ⟨name, -, -, count⟩ := toQueued_claimFields found (orderly.named id h held)
      have unheld := (orderly.reads id h held).of_claimable free
      have slots : (sys.step q clients now (.pass i .answered outlook)).record.slots = sys.record.slots := by
        simp [System.step, at_, System.call_answered, Record.after, Record.claim, next']
      rw [count]
      refine slotted.entries id h held ?_ a (slots ▸ holds) (named.trans name)
      intro j handed
      rcases unheld with idle | ⟨k, y, claimed, -⟩
      · rw [idle] at handed
        cases handed
      · rw [claimed] at handed
        cases handed
  · have same : v.request = w.request := by
      rcases shape with rfl | ⟨outlook, c, next, -, -, rfl⟩
      · rfl
      · exact w.after_request c _
    rw [same] at life mine stamp named ⊢
    generalize sys.step q clients now e = sys' at life mine holds
    cases life with
    | kept phase slots attempts item =>
      rw [phase] at mine
      exact slotted.claims i w x before stamp mine a (slots a holds named) named
    | @claimed j outlook g r _ _ event call held free whole after =>
      subst after
      obtain ⟨next, at_⟩ := call
      rcases mine with mine | mine
      · cases (Function.update_self _ _ _).symm.trans mine
        exact absurd ⟨outlook, g, r, next, event, at_⟩ other
      · cases (Function.update_self _ _ _).symm.trans mine
    | confirmed event call view' fits claimed unlapsed held after =>
      subst after
      rcases mine with mine | mine
      · cases (Function.update_self _ _ _).symm.trans mine
      · cases (Function.update_self _ _ _).symm.trans mine
        exact slotted.claims i w x before stamp (.inl claimed) a holds named
    | returned event call view' fits confirmed held after =>
      subst after
      rcases mine with mine | mine <;> cases (Function.update_self _ _ _).symm.trans mine
    | handed event call view' fits own confirmed after =>
      subst after
      obtain ⟨-, -, -, -, rfl⟩ := fits
      have here : ∀ j, (Function.update sys.record.phase _ (Phase.handed j)) w.request.requestId = .handed j :=
        fun j => (congrArg (Function.update sys.record.phase _ (Phase.handed j)) own.symm).trans
          (Function.update_self _ _ _)
      rcases mine with mine | mine <;> cases (here _).symm.trans mine
    | added event own whole absent accepted owner after =>
      subst after
      rcases mine with mine | mine <;> cases (Function.update_self _ _ _).symm.trans mine
    | retried event theirs held after =>
      subst after
      rcases mine with mine | mine <;> cases (Function.update_self _ _ _).symm.trans mine

omit [DecidableEq ι] in
theorem slotted_start {store : State} (bare : Bare q t store) : Slotted q t (System.start clients store t) where
  whole id h found := by
    rw [System.start, bare id] at found
    cases found
  entries id h found := by
    rw [System.start, bare id] at found
    cases found
  claims _ _ _ := nofun
  gone _ _ _ := nofun
  unbroken _ _ _ := nofun

omit [DecidableEq ι] in
/-- An entry a re-read finds gone within the lease is dead: while it was there
it could be read. -/
theorem Slotted.reread (slotted : Slotted q now sys) (orderly : Orderly q now sys) {w : ClaimView}
    (view : sys.views i = some w)
    (fits : (Call.getRequest id).Fits w) (stamp : w.request.claimedAt = some x)
    (missing : getRequest q sys.store id now = none) :
    Dead q now sys i w.request.requestId x ∨ queueClaimLeaseMs ≤ now - x := by
  obtain ⟨rfl, closed, tried, published, standing⟩ := fits
  have keeping := orderly.keeping i w view
  have unspent := keeping.unspent closed tried published
  have unlanded : sys.record.landed i = false := by
    rcases standing with unsent | refused
    · exact (keeping.unsent unsent).1
    · exact keeping.refused refused
  obtain ⟨y, stamp', -, fresh⟩ := keeping.since
  cases stamp.symm.trans stamp'
  by_cases within : now - x < queueClaimLeaseMs
  · have mine := fresh unspent unlanded within
    refine .inl ⟨mine, ?_⟩
    cases held : q.item sys.store now w.request.requestId with
    | none => rfl
    | some h =>
      have reads := orderly.reads _ h held
      rw [mine] at reads
      have read := (slotted.whole _ h held (by simp [mine])).toQueued reads.1 (by decide)
      unfold QueueKeys.item at held
      simp [getRequest, held] at missing
      rw [missing] at read
      cases read
  · exact .inr (not_lt.mp within)

theorem Slotted.step_gone (slotted : Slotted q now sys) (orderly : Orderly q now sys) (conformant : Conformant sys)
    (lives : ∀ id, Life q clients now sys e id (sys.step q clients now e)) (answered : e.Answered) {v : ClaimView}
    (view : (sys.step q clients now e).views i = some v) (stamp : v.request.claimedAt = some x) :
    (v.gone = true → Dead q now (sys.step q clients now e) i v.request.requestId x ∨ queueClaimLeaseMs ≤ now - x) ∧
      (v.unbroken = true → Dead q now (sys.step q clients now e) i v.request.requestId x) := by
  rcases sys.step_view answered view with ⟨-, -, -, -, -, -, -, fresh⟩ | ⟨w, before, -, shape⟩
  · rw [fresh]
    exact ⟨nofun, nofun⟩
  · have same : v.request = w.request := by
      rcases shape with rfl | ⟨outlook, c, next, -, -, rfl⟩
      · rfl
      · exact w.after_request c _
    rw [same] at stamp ⊢
    -- it is enough to look at the state before the step
    suffices early : (v.gone = true → Dead q now sys i w.request.requestId x ∨ queueClaimLeaseMs ≤ now - x) ∧
        (v.unbroken = true → Dead q now sys i w.request.requestId x) by
      refine ⟨fun gone => (early.1 gone).imp_left ?_, fun unbroken => (early.2 unbroken).step orderly (lives _)⟩
      exact fun dead => dead.step orderly (lives _)
    have old : (w.gone = true → Dead q now sys i w.request.requestId x ∨ queueClaimLeaseMs ≤ now - x) ∧
        (w.unbroken = true → Dead q now sys i w.request.requestId x) :=
      ⟨slotted.gone i w x before stamp, slotted.unbroken i w x before stamp⟩
    rcases shape with rfl | ⟨outlook, c, next, rfl, at_, rfl⟩
    · exact old
    · cases c with
      | getRequest id =>
        have conforms := conformant.program clients i
        rw [at_] at conforms
        obtain free | ⟨w', view', fits⟩ := conforms.1
        · cases free
        · cases before.symm.trans view'
          refine ⟨fun gone => slotted.reread orderly before fits stamp ?_, nofun⟩
          simpa [ClaimView.after, Call.exec, Except.toOption] using gone
      | now =>
        refine ⟨old.1, ?_⟩
        intro unbroken
        simp only [ClaimView.after, Call.exec, stamp, Option.elim_some, Bool.and_eq_true,
          decide_eq_true_eq] at unbroken
        exact (old.1 unbroken.1).resolve_right (not_le.mpr unbroken.2)
      | confirmRequest id y => exact old
      | claim budget => cases out : (budget.exec now sys.store).1 <;>
        simpa [Call.exec, out, ClaimView.after] using old
      | releaseClaim release =>
        cases out : (release.exec now sys.store).1 <;> simpa [Call.exec, out, ClaimView.after] using old
      | releaseUnusedAdmission release =>
        cases out : (release.exec now sys.store).1 <;> simpa [Call.exec, out, ClaimView.after] using old
      | _ => exact old

theorem Slotted.step (slotted : Slotted q now sys) (orderly : Orderly q now sys) (conformant : Conformant sys)
    (told : Told sys) (fair : e.Fair q clients now sys) (answered : e.Answered) (counted : e.Counted q now sys) :
    Slotted q now (sys.step q clients now e) := by
  have lives : ∀ id, Life q clients now sys e id (sys.step q clients now e) :=
    orderly.life conformant told fair answered
  refine ⟨?_, ?_, ?_, ?_, ?_⟩
  · exact fun id h found busy => slotted.step_whole (lives id) found busy
  · exact fun id h found free a holds named =>
      slotted.step_entries orderly counted (lives id) found free holds named
  · exact fun i v x view stamp mine a holds named =>
      slotted.step_claims orderly lives answered view stamp mine holds named
  · exact fun i v x view stamp => (slotted.step_gone orderly conformant lives answered view stamp).1
  · exact fun i v x view stamp => (slotted.step_gone orderly conformant lives answered view stamp).2

end Steps

section Runs

variable {q : QueueKeys} {clients : ι → Client} {t : ℚ} {i : ι}

/-- When a pass hands back what it claimed for an entry it found gone, no
attempt of that request and retry count that another pass handed over holds a slot. -/
theorem released_slot_unused {store : State} (bare : Bare q t store) {history : List (ℚ × Event ι)}
    (valid : (slotRuns q clients).Valid t (.start clients store t) history) :
    let sys := (slotRuns q clients).final (.start clients store t) history
    ∀ v release next, sys.views i = some v → sys.program clients i = .call (.releaseUnusedAdmission release) next →
      ∀ a ∈ sys.record.slots, a.request.requestId = v.request.requestId → a.request.retries = v.request.retries →
        a.pass = i := by
  intro sys v release next view at_ a holds named count
  have kept := valid.invariant
    (I := fun t sys => (Orderly q t sys ∧ Conformant sys ∧ Told sys) ∧ Slotted q t sys)
    (by
      rintro t now e sys order ⟨⟨fair, answered⟩, counted⟩ ⟨⟨orderly, conformant, told⟩, slotted⟩
      have orderly' := orderly.later order
      obtain ⟨after, conformant'⟩ := orderly'.step conformant fair (orderly'.guarded conformant told e)
      exact ⟨⟨after, conformant', told.step answered⟩,
        (slotted.later order).step orderly' conformant told fair answered counted⟩)
    ⟨⟨orderly_start bare, conformant_start store, told_start store⟩, slotted_start bare⟩
  obtain ⟨⟨orderly, conformant, -⟩, slotted⟩ := kept
  have conforms := conformant.program clients i
  rw [at_] at conforms
  obtain free | ⟨w, view', -, unbroken⟩ := conforms.1
  · cases free
  · cases view.symm.trans view'
    obtain ⟨x, stamp, -⟩ := (orderly.keeping i v view).since
    have dead := slotted.unbroken i v x view stamp unbroken
    exact absurd count (slotted.claims i v x view stamp (.inl dead.1) a holds named)

end Runs

section Tests

variable {q : QueueKeys} {slotKey : String} {clients : ι → Client} {now : ℚ} {sys : System ι}

def Event.counted (q : QueueKeys) (now : ℚ) (sys : System ι) : Event ι → Bool
  | .add request _ => sys.record.slots.all fun a => decide (a.request.requestId ≠ request.requestId)
  | .recount id _ => decide (0 < sys.record.handed id)
  | .retry id => (q.item sys.store now id).all fun h =>
      sys.record.slots.all fun a => decide (a.request.requestId = id → a.request.retries ≠ storedRetries h)
  | _ => true

theorem slotRuns_of_test (confined : Confined q slotKey clients) (now : ℚ) (e : Event ι) (sys : System ι)
    (test : (e.fair q slotKey clients now sys && e.answered && e.counted q now sys) = true) :
    (slotRuns q clients).allowed now e sys := by
  simp only [Bool.and_eq_true] at test
  obtain ⟨⟨fair, answered⟩, counted⟩ := test
  refine ⟨⟨Event.fair_of_test confined fair, Event.answered_of_test answered⟩, ?_⟩
  cases e with
  | add request ttl =>
    intro _ a holds named
    exact absurd named (of_decide_eq_true (List.all_eq_true.mp counted a holds))
  | recount id retries =>
    simp only [Event.counted, decide_eq_true_eq] at counted
    exact counted
  | retry id =>
    intro h found a holds
    simp only [Event.counted, found, Option.all_some] at counted
    exact of_decide_eq_true (List.all_eq_true.mp counted a holds)
  | _ => trivial

/-- Two slots for the whole client. -/
def twoSlots : SlotLimit where
  getSlotKey _ := "ns:slots"
  costFor
    | .amount cost => cost
    | .perLimit amounts => (amounts.lookup "slots").getD 0
  config := { maxConcurrency := 2, requestTtl := 60000 }
  print retries := toString retries.toRat

/-- Two controllers of a client with two slots. -/
def slotControllers (i : Fin 2) : Client := (controllers i).withSlots (clientQueue "ns") twoSlots

/-- An attempt is handed over and holds its slot past its end; its retry is
claimed, and gone when it is read again. -/
def goneRun : List (ℚ × Event (Fin 2)) :=
  [(0, .add (plainRequest "first" "one") 86400), (1, .pass 0 .answered {}), (2, .pass 0 .answered {}),
    (3, .pass 0 .answered {}), (4, .pass 0 .answered {}), (5, .pass 0 .answered {}), (6, .pass 0 .answered {}),
    (7, .pass 0 .answered {}), (8, .pass 0 .answered {}), (9, .pass 0 .answered {}), (10, .complete "first"),
    (11, .recount "first" 1), (12, .retry "first"), (13, .pass 1 .answered {}), (14, .pass 1 .answered {}),
    (15, .pass 1 .answered {}), (16, .pass 1 .answered {}), (17, .pass 1 .answered {}), (18, .pass 1 .answered {}),
    (19, .remove "first" 60), (20, .pass 1 .answered {}), (21, .pass 1 .answered {})]

/-- The pass is about to hand an unused admission back. -/
def System.handsBack (clients : ι → Client) (sys : System ι) (i : ι) : Bool :=
  match sys.program clients i with
  | .call (.releaseUnusedAdmission _) _ => (sys.views i).isSome
  | _ => false

theorem released_slot_unused_retried :
    let sys := (slotRuns (clientQueue "ns") slotControllers).final (.start slotControllers State.fresh 0) goneRun
    sys.record.slots ≠ [] ∧ ∃ v release next, sys.views 1 = some v ∧
      sys.program slotControllers 1 = .call (.releaseUnusedAdmission release) next ∧
      ∀ a ∈ sys.record.slots, a.request.requestId = v.request.requestId → a.request.retries = v.request.retries →
        a.pass = 1 := by
  intro sys
  have confined : Confined (clientQueue "ns") "ns:slots" slotControllers := plain_confined fun _ => rfl
  have hands : sys.handsBack slotControllers 1 = true := by decide +kernel
  have held : sys.record.slots.isEmpty = false := by decide +kernel
  unfold System.handsBack at hands
  split at hands
  · rename_i release next at_
    obtain ⟨v, view⟩ := Option.isSome_iff_exists.mp hands
    refine ⟨by simpa using held, v, release, next, view, at_, ?_⟩
    exact released_slot_unused (bare_fresh _ 0)
      (Timed.Machine.valid_of_checks (slotRuns_of_test confined) (by decide +kernel)) v release next view at_
  · cases hands

end Tests

end Dianemo
