import Dianemo.Flag
import Dianemo.Habits
import Dianemo.Presence

namespace Dianemo

open JsNumber Resumption

variable {ι : Type} [DecidableEq ι]

/-- What is known of one entry's nominations: the mark of a nominated claim or
attempt stands, and an attempt is out only while its entry is handed over to it. -/
structure Nominated (q : QueueKeys) (t : ℚ) (sys : System ι) (id : String) : Prop where
  holder : ∀ i v x h, sys.views i = some v → v.request.requestId = id →
    v.request.claimedAt = some x → v.started = true →
    sys.record.phase id = .claimed i x ∨ sys.record.phase id = .confirmed i x →
      q.item sys.store t id = some h → Marked h
  attempts : ∀ a ∈ sys.record.attempts, a.request.requestId = id → sys.record.phase id = .handed a.pass ∧
    (a.started = true → ∃ h, q.item sys.store t id = some h ∧ Marked h)
  confirmed : ∀ i x, sys.record.phase id = .confirmed i x →
    (q.item sys.store t id).isSome ∨ id ∈ sys.record.finished

/-- The entry is being probed: a nominated attempt is out, or a pass that had it
nominated has an unbroken claim on it. -/
def Probed (q : QueueKeys) (t : ℚ) (sys : System ι) (id : String) : Prop :=
  (∃ a ∈ sys.record.attempts, a.request.requestId = id ∧ a.started = true) ∨
    (q.item sys.store t id).isSome ∧ ∃ i v x, sys.views i = some v ∧ v.request.requestId = id ∧
      v.request.claimedAt = some x ∧ v.started = true ∧
      (sys.record.phase id = .claimed i x ∧ t - x < queueClaimLeaseMs ∨ sys.record.phase id = .confirmed i x)

/-- The step gets the entry nominated. -/
def Starts (q : QueueKeys) (clients : ι → Client) (now : ℚ) (sys : System ι) (e : Event ι) (id : String) : Prop :=
  ∃ i outlook grantId anyGrant next, e = .pass i .answered outlook ∧
    sys.program clients i = .call (.tryStartThawRequest id grantId anyGrant) next ∧
    (tryStartThawRequest q sys.store (clients i).frozenGrantsKey id grantId anyGrant now).1 = true

/-- At most one entry is being probed, by at most one attempt. -/
structure SingleFlight (q : QueueKeys) (t : ℚ) (sys : System ι) : Prop where
  nominated : ∀ id, Nominated q t sys id
  alone : ∀ id other, Probed q t sys id → Probed q t sys other → id = other
  distinct : (sys.record.attempts.map fun a => a.request.requestId).Nodup

section Steps

variable {q : QueueKeys} {clients : ι → Client} {now t : ℚ} {sys sys' : System ι}
    {id : String} {i : ι} {e : Event ι}

omit [DecidableEq ι] in
theorem item_before (order : t ≤ now) {s : State} {h : Fields} (found : q.item s now id = some h) :
    q.item s t id = some h := by
  rcases item_later order s id with gone | same
  · rw [gone] at found
    cases found
  · exact same.symm.trans found

omit [DecidableEq ι] in
theorem Probed.before (probed : Probed q now sys id) (order : t ≤ now) : Probed q t sys id := by
  refine probed.imp_right ?_
  rintro ⟨there, i, v, x, view, named, stamp, started, held⟩
  obtain ⟨h, found⟩ := Option.isSome_iff_exists.mp there
  refine ⟨by simp [item_before order found], i, v, x, view, named, stamp, started, held.imp_left ?_⟩
  exact fun claimed => ⟨claimed.1, lt_of_le_of_lt (by linarith) claimed.2⟩

omit [DecidableEq ι] in
theorem SingleFlight.later (single : SingleFlight q t sys) (kept : Kept q t sys) (order : t ≤ now)
    (lasts : Lasts q sys.clock now sys.store) : SingleFlight q now sys := by
  rw [kept.clock] at lasts
  refine ⟨fun id => ⟨?_, ?_, ?_⟩, ?_, single.distinct⟩
  · intro i v x h view named stamp started held found
    exact (single.nominated id).holder i v x h view named stamp started held (item_before order found)
  · intro a out named
    obtain ⟨handed, marked⟩ := (single.nominated id).attempts a out named
    refine ⟨handed, fun started => ?_⟩
    obtain ⟨h, held, mark⟩ := marked started
    obtain ⟨h', found⟩ :=
      Option.isSome_iff_exists.mp (kept.present.lasts lasts (by simp [held] : (q.item sys.store t id).isSome))
    cases held.symm.trans (item_before order found)
    exact ⟨h, found, mark⟩
  · intro i x confirmed
    exact ((single.nominated id).confirmed i x confirmed).imp_left (kept.present.lasts lasts)
  · exact fun id other first second => single.alone id other (first.before order) (second.before order)

/-- A nominated view is one from before, or the step's own doing. -/
theorem started_before {v : ClaimView} (conformant : Conformant sys) (answered : e.Answered)
    (view : (sys.step q clients now e).views i = some v) (started : v.started = true) :
    ∃ w, sys.views i = some w ∧ ¬ Claims clients sys e i ∧ v.request = w.request ∧
      (w.started = true ∨ Starts q clients now sys e v.request.requestId) := by
  rcases sys.step_view answered view with ⟨-, -, -, -, -, -, -, fresh⟩ | ⟨w, before, other, shape⟩
  · rw [fresh] at started
    cases started
  · refine ⟨w, before, other, ?_⟩
    rcases shape with rfl | ⟨outlook, c, next, rfl, at_, rfl⟩
    · exact ⟨rfl, .inl started⟩
    · refine ⟨w.after_request c _, ?_⟩
      rw [w.after_request]
      cases c with
      | tryStartThawRequest id grantId anyGrant =>
        have conforms := conformant.program clients i
        rw [at_] at conforms
        obtain free | ⟨w', before', fits⟩ := conforms.1
        · cases free
        · cases before.symm.trans before'
          obtain ⟨rfl, -⟩ := fits
          simp only [ClaimView.after, Call.exec, Bool.or_eq_true] at started
          exact started.imp_right fun started => ⟨i, outlook, grantId, anyGrant, next, rfl, at_, started⟩
      | claim budget => cases out : (budget.exec now sys.store).1 <;> simp_all [ClaimView.after]
      | releaseClaim release => cases out : (release.exec now sys.store).1 <;> simp_all [ClaimView.after]
      | releaseUnusedAdmission release => cases out : (release.exec now sys.store).1 <;> simp_all [ClaimView.after]
      | _ => exact .inl started

/-- The entry a step nominates is marked after it. -/
theorem Starts.marked (starts : Starts q clients now sys e id) (fair : e.Fair q clients now sys) {h' : Fields}
    (found : q.item (sys.step q clients now e).store now id = some h') : Marked h' := by
  obtain ⟨i, outlook, grantId, anyGrant, next, rfl, at_, started⟩ := starts
  simp only [System.step, at_, System.call_answered, Call.exec] at found
  rcases tryStartThawRequest_cases (fair _ next at_) sys.store id grantId anyGrant
    with ⟨refused, -⟩ | ⟨h, -, -, items⟩
  · rw [refused] at started
    cases started
  · rw [items, Function.update_self] at found
    cases found
    simp [Marked, withFields, flagField]

/-- Records only add to what is finished. -/
theorem Record.after_finished (r : Record ι) (i : ι) (v : Option ClaimView)
    (outlook : Outlook) (s : State) (c : Call)
    {id : String} (finished : id ∈ r.finished) : id ∈ (r.after q i v outlook now s c).finished := by
  cases c with
  | getNextRequest skipGrantIds skipRequestIds =>
    simp only [Record.after, Record.claim]
    split <;> exact finished
  | confirmRequest id x =>
    simp only [Record.after]
    split <;> exact finished
  | updateRequest id updates =>
    simp only [Record.after]
    split <;> exact finished
  | failWaitingRequest id =>
    simp only [Record.after]
    split
    · exact List.mem_cons_of_mem _ finished
    · exact finished
  | removeRequest id => exact List.mem_cons_of_mem _ finished
  | _ => exact finished

theorem System.step_finished (sys : System ι) (e : Event ι) (finished : id ∈ sys.record.finished) :
    id ∈ (sys.step q clients now e).record.finished := by
  cases e with
  | pass i fate outlook =>
    simp only [System.step]
    cases sys.program clients i with
    | done out => exact finished
    | call c next =>
      simp only [System.call]
      split
      · exact Record.after_finished _ _ _ _ _ _ finished
      · exact finished
  | add request ttl =>
    simp only [System.step, System.add]
    split <;> exact finished
  | retry id =>
    simp only [System.step, System.retry]
    split <;> exact finished
  | remove id ttl => exact List.mem_cons_of_mem _ finished
  | _ => exact finished

theorem Removes.finished (removes : Removes clients sys e id) :
    id ∈ (sys.step q clients now e).record.finished := by
  rcases removes with ⟨ttl, rfl⟩ | ⟨i, outlook, next, rfl, at_⟩
  · exact List.mem_cons_self ..
  · simp only [System.step, at_, System.call_answered, Record.after]
    exact List.mem_cons_self ..

omit [DecidableEq ι] in
/-- A confirmed entry that can still be handed over is there. -/
theorem Nominated.there (nominated : Nominated q now sys id) {x : ℚ} (mine : sys.record.phase id = .confirmed i x)
    (waited : id ∉ sys.record.finished) : ∃ h, q.item sys.store now id = some h :=
  Option.isSome_iff_exists.mp ((nominated.confirmed i x mine).resolve_right waited)

theorem Nominated.step_holder (nominated : Nominated q now sys id) (conformant : Conformant sys)
    (fair : e.Fair q clients now sys)
    (answered : e.Answered) (life : Life q clients now sys e id (sys.step q clients now e))
    {v : ClaimView} {x : ℚ} {h' : Fields}
    (view : (sys.step q clients now e).views i = some v) (named : v.request.requestId = id)
    (stamp : v.request.claimedAt = some x) (started : v.started = true)
    (mine : (sys.step q clients now e).record.phase id = .claimed i x ∨
      (sys.step q clients now e).record.phase id = .confirmed i x)
    (found : q.item (sys.step q clients now e).store now id = some h') : Marked h' := by
  obtain ⟨w, before, other, same, cause⟩ := started_before conformant answered view started
  rcases cause with old | starts
  · rw [same] at named stamp
    generalize sys.step q clients now e = sys' at life mine found
    cases life with
    | kept phase slots attempts item =>
      rw [phase] at mine
      obtain ⟨h, held, -, -, -, -, mark⟩ := item h' found
      rcases mark with mark | ⟨-, mark⟩
      · rw [Marked, mark]
        exact nominated.holder i w x h before named stamp old mine held
      · simpa [Marked, flagField] using mark
    | @claimed j outlook g r _ _ event call held free whole after =>
      subst after
      obtain ⟨next, at_⟩ := call
      rcases mine with mine | mine
      · cases (Function.update_self _ _ _).symm.trans mine
        exact absurd ⟨outlook, g, r, next, event, at_⟩ other
      · cases (Function.update_self _ _ _).symm.trans mine
    | @confirmed j outlook _ h _ y event call view' fits claimed unlapsed held after =>
      subst after
      rcases mine with mine | mine
      · cases (Function.update_self _ _ _).symm.trans mine
      · cases (Function.update_self _ _ _).symm.trans mine
        dsimp only at found
        rw [item_eraseField held, Function.update_self] at found
        cases found
        rw [Marked, AList.lookup_erase_ne (by decide)]
        exact nominated.holder i w x h before named stamp old (.inl claimed) held
    | returned event call view' fits confirmed held after =>
      subst after
      rcases mine with mine | mine <;> cases (Function.update_self _ _ _).symm.trans mine
    | handed event call view' fits own confirmed after =>
      subst after
      obtain ⟨-, -, -, -, rfl⟩ := fits
      have here : ∀ j, (Function.update sys.record.phase _ (Phase.handed j)) id = .handed j :=
        fun j => (congrArg (Function.update sys.record.phase _ (Phase.handed j)) own.symm).trans
          (Function.update_self _ _ _)
      rcases mine with mine | mine <;> cases (here _).symm.trans mine
    | added event own whole absent accepted owner after =>
      subst after
      rcases mine with mine | mine <;> cases (Function.update_self _ _ _).symm.trans mine
    | retried event theirs held after =>
      subst after
      rcases mine with mine | mine <;> cases (Function.update_self _ _ _).symm.trans mine
  · rw [named] at starts
    exact starts.marked fair found

omit [DecidableEq ι] in
/-- What a hand-over adds was in its pass's hands until then. -/
theorem Nominated.handing (nominated : Nominated q now sys id) (orderly : Orderly q now sys) {v : ClaimView}
    {request : RequestMetadata} (view : sys.views i = some v) (fits : (Call.requestReady request).Fits v)
    (named : v.request.requestId = id) (waited : id ∉ sys.record.finished) :
    ∃ x h, v.request.claimedAt = some x ∧ sys.record.phase id = .confirmed i x ∧ q.item sys.store now id = some h ∧
      (v.started = true → Marked h) := by
  obtain ⟨confirmed, closed, tried, published, rfl⟩ := fits
  obtain ⟨x, stamp, mine⟩ := orderly.holder view confirmed closed tried published
  rw [named] at mine
  obtain ⟨h, held⟩ := nominated.there mine waited
  exact ⟨x, h, stamp, mine, held, fun started => nominated.holder i v x h view named stamp started (.inr mine) held⟩

theorem Nominated.step_attempts (nominated : Nominated q now sys id) (orderly : Orderly q now sys)
    (fair : e.Fair q clients now sys) (spares : e.Spares q clients now sys)
    (retains : Retains q now (Removes clients sys e) sys.store (sys.step q clients now e).store)
    (life : Life q clients now sys e id (sys.step q clients now e)) {a : Dispatch ι}
    (out : a ∈ (sys.step q clients now e).record.attempts) (named : a.request.requestId = id) :
    (sys.step q clients now e).record.phase id = .handed a.pass ∧
      (a.started = true → ∃ h, q.item (sys.step q clients now e).store now id = some h ∧ Marked h) := by
  have unheld : ∀ {b : Dispatch ι}, b ∈ sys.record.attempts → b.request.requestId = id →
      (∀ j, sys.record.phase id ≠ .handed j) → False := by
    intro b old own unhanded
    exact unhanded _ (nominated.attempts b old own).1
  generalize stepped : sys.step q clients now e = sys' at life out retains
  cases life with
  | kept phase slots attempts item =>
    have old := attempts a out named
    obtain ⟨handed, marked⟩ := nominated.attempts a old named
    refine ⟨phase.trans handed, fun started => ?_⟩
    obtain ⟨h, held, mark⟩ := marked started
    have there := retains.items id (fun removes => spares.1 id removes a old named) (by simp [held])
    obtain ⟨h', found⟩ := Option.isSome_iff_exists.mp there
    obtain ⟨h₀, held₀, -, -, -, -, mark'⟩ := item h' found
    cases held.symm.trans held₀
    refine ⟨h', found, ?_⟩
    rcases mark' with same | ⟨-, set⟩
    · rw [Marked, same]
      exact mark
    · simpa [Marked, flagField] using set
  | claimed event call held free whole after =>
    subst after
    refine (unheld out named ?_).elim
    intro j handed
    rcases (orderly.reads id _ held).of_claimable free with idle | ⟨k, y, claimed, -⟩
    · rw [idle] at handed
      cases handed
    · rw [claimed] at handed
      cases handed
  | confirmed event call view fits mine unlapsed held after =>
    subst after
    exact (unheld out named (by simp [mine])).elim
  | returned event call view fits mine held after =>
    subst after
    exact (unheld out named (by simp [mine])).elim
  | @handed j outlook request _ v x event call view fits own mine after =>
    subst after
    have shape := fits.2.2.2.2
    simp only [Record.spend, Record.handOver] at out
    split at out
    · exact (unheld out named (by simp [mine])).elim
    · rename_i waited
      rcases List.mem_cons.mp out with rfl | old
      · have ids : request.requestId = id := by rw [shape]; exact own
        rw [ids] at waited
        obtain ⟨y, h, -, -, held, marked⟩ := nominated.handing orderly view fits own waited
        refine ⟨?_, fun started => ⟨h, held, marked started⟩⟩
        simp only [Record.spend, Record.handOver]
        rw [ids, Function.update_self]
      · exact (unheld old named (by simp [mine])).elim
  | added event own whole absent accepted owner after =>
    subst after event own
    have used : a.request.requestId ∈ sys.record.used := by
      by_contra fresh
      have handed := (nominated.attempts a out named).1
      rw [← named, orderly.unused _ fresh] at handed
      cases handed
    exact absurd named ((fair.2 accepted (named ▸ used)).2 a out)
  | retried event theirs held after =>
    subst after event
    exact absurd named (fair.2 a out)

theorem Nominated.step_confirmed (nominated : Nominated q now sys id)
    (retains : Retains q now (Removes clients sys e) sys.store (sys.step q clients now e).store)
    (life : Life q clients now sys e id (sys.step q clients now e)) {x : ℚ}
    (mine : (sys.step q clients now e).record.phase id = .confirmed i x) :
    (q.item (sys.step q clients now e).store now id).isSome ∨ id ∈ (sys.step q clients now e).record.finished := by
  by_cases removes : Removes clients sys e id
  · exact .inr removes.finished
  have lasting : id ∈ sys.record.finished → id ∈ (sys.step q clients now e).record.finished := sys.step_finished e
  generalize sys.step q clients now e = sys' at life mine retains lasting
  cases life with
  | kept phase slots attempts item =>
    rw [phase] at mine
    exact (nominated.confirmed i x mine).imp (retains.items id removes) lasting
  | claimed event call held free whole after =>
    subst after
    cases (Function.update_self _ _ _).symm.trans mine
  | confirmed event call view fits claimed unlapsed held after =>
    subst after
    refine .inl ?_
    dsimp only
    rw [item_eraseField held, Function.update_self]
    rfl
  | returned event call view fits confirmed held after =>
    subst after
    cases (Function.update_self _ _ _).symm.trans mine
  | handed event call view fits own confirmed after =>
    subst after
    obtain ⟨-, -, -, -, rfl⟩ := fits
    have here : ∀ j, (Function.update sys.record.phase _ (Phase.handed j)) id = .handed j :=
      fun j => (congrArg (Function.update sys.record.phase _ (Phase.handed j)) own.symm).trans
        (Function.update_self _ _ _)
    cases (here _).symm.trans mine
  | added event own whole absent accepted owner after =>
    subst after
    cases (Function.update_self _ _ _).symm.trans mine
  | retried event theirs held after =>
    subst after
    cases (Function.update_self _ _ _).symm.trans mine

/-- An entry that is probed after a step was so before, or got nominated in it. -/
theorem Probed.step (probed : Probed q now (sys.step q clients now e) id) (nominated : Nominated q now sys id)
    (orderly : Orderly q now sys) (conformant : Conformant sys) (answered : e.Answered)
    (life : Life q clients now sys e id (sys.step q clients now e)) :
    Probed q now sys id ∨ Starts q clients now sys e id := by
  rcases probed with ⟨a, out, named, started⟩ | ⟨there, i, v, x, view, named, stamp, started, mine⟩
  · -- a nominated attempt was out before, or was in its pass's hands
    refine .inl ?_
    generalize sys.step q clients now e = sys' at life out
    cases life with
    | kept phase slots attempts item => exact .inl ⟨a, attempts a out named, named, started⟩
    | claimed event call held free whole after =>
      subst after
      exact .inl ⟨a, out, named, started⟩
    | confirmed event call view fits mine unlapsed held after =>
      subst after
      exact .inl ⟨a, out, named, started⟩
    | returned event call view fits mine held after =>
      subst after
      exact .inl ⟨a, out, named, started⟩
    | @handed j outlook request _ v x event call view fits own mine after =>
      subst after
      have shape := fits.2.2.2.2
      simp only [Record.spend, Record.handOver] at out
      split at out
      · exact .inl ⟨a, out, named, started⟩
      · rename_i waited
        rcases List.mem_cons.mp out with rfl | old
        · have ids : request.requestId = id := by rw [shape]; exact own
          rw [ids] at waited
          obtain ⟨y, h, stamp, confirmed, held, -⟩ := nominated.handing orderly view fits own waited
          exact .inr ⟨by simp [held], j, v, y, view, own, stamp, started, .inr confirmed⟩
        · exact .inl ⟨a, old, named, started⟩
    | added event own whole absent accepted owner after =>
      subst after
      exact .inl ⟨a, out, named, started⟩
    | retried event theirs held after =>
      subst after
      exact .inl ⟨a, out, named, started⟩
  · obtain ⟨w, before, other, same, cause⟩ := started_before conformant answered view started
    rcases cause with old | starts
    · refine .inl (.inr ?_)
      rw [same] at named stamp
      generalize sys.step q clients now e = sys' at life mine there
      cases life with
      | kept phase slots attempts item =>
        obtain ⟨h', found⟩ := Option.isSome_iff_exists.mp there
        obtain ⟨h, held, -⟩ := item h' found
        rw [phase] at mine
        exact ⟨by simp [held], i, w, x, before, named, stamp, old, mine⟩
      | @claimed j outlook g r _ _ event call held free whole after =>
        subst after
        obtain ⟨next, at_⟩ := call
        rcases mine with ⟨mine, -⟩ | mine
        · cases (Function.update_self _ _ _).symm.trans mine
          exact absurd ⟨outlook, g, r, next, event, at_⟩ other
        · cases (Function.update_self _ _ _).symm.trans mine
      | confirmed event call view' fits claimed unlapsed held after =>
        subst after
        rcases mine with ⟨mine, -⟩ | mine
        · cases (Function.update_self _ _ _).symm.trans mine
        · cases (Function.update_self _ _ _).symm.trans mine
          exact ⟨by simp [held], i, w, x, before, named, stamp, old, .inl ⟨claimed, unlapsed⟩⟩
      | returned event call view' fits confirmed held after =>
        subst after
        rcases mine with ⟨mine, -⟩ | mine <;> cases (Function.update_self _ _ _).symm.trans mine
      | handed event call view' fits own confirmed after =>
        subst after
        obtain ⟨-, -, -, -, rfl⟩ := fits
        have here : ∀ j, (Function.update sys.record.phase _ (Phase.handed j)) id = .handed j := fun j =>
          (congrArg (Function.update sys.record.phase _ (Phase.handed j)) own.symm).trans
            (Function.update_self _ _ _)
        rcases mine with ⟨mine, -⟩ | mine <;> cases (here _).symm.trans mine
      | added event own whole absent accepted owner after =>
        subst after
        rcases mine with ⟨mine, -⟩ | mine <;> cases (Function.update_self _ _ _).symm.trans mine
      | retried event theirs held after =>
        subst after
        rcases mine with ⟨mine, -⟩ | mine <;> cases (Function.update_self _ _ _).symm.trans mine
    · rw [named] at starts
      exact .inr starts

omit [DecidableEq ι] in
/-- What is being probed competes with every other nomination. -/
theorem Probed.competes (probed : Probed q now sys id) (nominated : Nominated q now sys id)
    (orderly : Orderly q now sys) (present : Present q now sys.store) (grantId : String) :
    id ∈ sys.store.sorted q.queueKey now ∧ isCompetingProbe q sys.store id grantId true now = true := by
  have competes : ∀ h, q.item sys.store now id = some h → h.lookup "status" = some (.text "inProgress") → Marked h →
      claimLapsed (h.lookup "claimedAt") now = false →
      id ∈ sys.store.sorted q.queueKey now ∧ isCompetingProbe q sys.store id grantId true now = true := by
    intro h held status marked fresh
    refine ⟨present.listed id (by simp [held]), ?_⟩
    have read : ∀ field, sys.store.hget (q.metadataKey id) field now = h.lookup field := by
      intro field
      unfold QueueKeys.item at held
      simp [State.hget, held]
    unfold Marked at marked
    simp [isCompetingProbe, read, status, marked, fresh]
  rcases probed with ⟨a, out, named, started⟩ | ⟨there, i, v, x, view, named, stamp, started, mine⟩
  · obtain ⟨handed, marked⟩ := nominated.attempts a out named
    obtain ⟨h, held, mark⟩ := marked started
    have reads := orderly.reads id h held
    rw [handed] at reads
    exact competes h held reads.1 mark (by rw [reads.2, claimLapsed_none])
  · obtain ⟨h, held⟩ := Option.isSome_iff_exists.mp there
    have reads := orderly.reads id h held
    have mark := nominated.holder i v x h view named stamp started (mine.imp_left And.left) held
    rcases mine with ⟨claimed, within⟩ | confirmed
    · rw [claimed] at reads
      exact competes h held reads.1 mark (by rw [reads.2, claimLapsed_num]; simpa using within)
    · rw [confirmed] at reads
      exact competes h held reads.1 mark (by rw [reads.2, claimLapsed_none])

omit [DecidableEq ι] in
/-- Nothing else is being probed when an entry is nominated. -/
theorem Starts.alone {other : String} (starts : Starts q clients now sys e id) (single : SingleFlight q now sys)
    (orderly : Orderly q now sys) (present : Present q now sys.store) (accustomed : Accustomed clients sys)
    (shared : ∀ i, (clients i).usesGrantIsolation = false) (fair : e.Fair q clients now sys)
    (probed : Probed q now sys other) : other = id := by
  by_contra ne
  obtain ⟨i, outlook, grantId, anyGrant, next, rfl, at_, started⟩ := starts
  have does := accustomed.does at_
  obtain rfl : anyGrant = true := by rw [does.1, shared i]; rfl
  obtain ⟨listed, competes⟩ := probed.competes (single.nominated other) orderly present grantId
  rw [tryStartThawRequest_alone (fair _ next at_) started ne listed] at competes
  cases competes

/-- Attempts are added one at a time, by hand-overs. -/
theorem System.step_attempts (sys : System ι) (answered : e.Answered) :
    (sys.step q clients now e).record.attempts.Sublist sys.record.attempts ∨
      ∃ i outlook request next started, e = .pass i .answered outlook ∧
        sys.program clients i = .call (.requestReady request) next ∧
        (sys.step q clients now e).record.attempts = ⟨request, i, started⟩ :: sys.record.attempts := by
  cases e with
  | pass i fate outlook =>
    simp only [Event.Answered] at answered
    subst answered
    simp only [System.step]
    cases at_ : sys.program clients i with
    | done out => exact .inl (List.Sublist.refl _)
    | call c next =>
      simp only [System.call_answered]
      cases c with
      | requestReady request =>
        simp only [Record.after, Record.spend, Record.handOver]
        split
        · exact .inl (List.Sublist.refl _)
        · exact .inr ⟨i, outlook, request, next, _, rfl, at_, rfl⟩
      | getNextRequest skipGrantIds skipRequestIds =>
        simp only [Record.after, Record.claim]
        split <;> exact .inl (List.Sublist.refl _)
      | confirmRequest id x =>
        simp only [Record.after]
        split <;> exact .inl (List.Sublist.refl _)
      | updateRequest id updates =>
        simp only [Record.after]
        split <;> exact .inl (List.Sublist.refl _)
      | failWaitingRequest id =>
        simp only [Record.after]
        split <;> exact .inl (List.Sublist.refl _)
      | _ => exact .inl (List.Sublist.refl _)
  | add request ttl =>
    simp only [System.step, System.add]
    split <;> exact .inl (List.Sublist.refl _)
  | retry id =>
    simp only [System.step, System.retry]
    split <;> exact .inl (List.Sublist.refl _)
  | complete id => exact .inl List.filter_sublist
  | _ => exact .inl (List.Sublist.refl _)

theorem SingleFlight.step (single : SingleFlight q now sys) (kept : Kept q t sys) (order : t ≤ now)
    (lasts : Lasts q sys.clock now sys.store) (orderly : Orderly q now sys)
    (conformant : Conformant sys) (told : Told sys)
    (accustomed : Accustomed clients sys) (shared : ∀ i, (clients i).usesGrantIsolation = false)
    (fair : e.Fair q clients now sys) (answered : e.Answered) (spares : e.Spares q clients now sys) :
    SingleFlight q now (sys.step q clients now e) := by
  rw [kept.clock] at lasts
  have present := kept.present.later order lasts
  have lives : ∀ id, Life q clients now sys e id (sys.step q clients now e) :=
    orderly.life conformant told fair answered
  have retains := System.step_retains present kept.plain orderly fair answered spares
  refine ⟨fun id => ⟨?_, ?_, ?_⟩, ?_, ?_⟩
  · intro i v x h view named stamp started mine found
    exact (single.nominated id).step_holder conformant fair answered (lives id) view named stamp started mine found
  · intro a out named
    exact (single.nominated id).step_attempts orderly fair spares retains (lives id) out named
  · intro i x mine
    exact (single.nominated id).step_confirmed retains (lives id) mine
  · intro id other first second
    have alone : ∀ {id other}, Starts q clients now sys e id → Probed q now sys other → other = id :=
      fun starts probed => starts.alone single orderly present accustomed shared fair probed
    rcases first.step (single.nominated id) orderly conformant answered (lives id) with probed | starts
    · rcases second.step (single.nominated other) orderly conformant answered (lives other) with probed' | starts'
      · exact single.alone id other probed probed'
      · exact alone starts' probed
    · rcases second.step (single.nominated other) orderly conformant answered (lives other) with probed' | starts'
      · exact (alone starts probed').symm
      · obtain ⟨i, outlook, g, a, next, rfl, at_, -⟩ := starts
        obtain ⟨i', outlook', g', a', next', same, at_', -⟩ := starts'
        cases same
        rw [at_] at at_'
        cases at_'
        rfl
  · have grown : (sys.step q clients now e).record.attempts.Sublist sys.record.attempts ∨ _ :=
      sys.step_attempts answered
    rcases grown with fewer | ⟨i, outlook, request, next, started, rfl, at_, more⟩
    · exact single.distinct.sublist (fewer.map _)
    · rw [more, List.map_cons, List.nodup_cons]
      refine ⟨?_, single.distinct⟩
      intro member
      obtain ⟨a, out, named⟩ := List.mem_map.mp member
      have conforms := conformant.program clients i
      rw [at_] at conforms
      obtain free | ⟨v, view, confirmed, closed, tried, published, rfl⟩ := conforms.1
      · cases free
      · obtain ⟨x, -, mine⟩ := orderly.holder view confirmed closed tried published
        have handed := ((single.nominated _).attempts a out named).1
        rw [show (Client.requestMetadata v.request v.flag).requestId = v.request.requestId from rfl, mine] at handed
        cases handed

end Steps

section Runs

variable {q : QueueKeys} {clients : ι → Client} {t : ℚ}

/-- Runs in which entries leave the queue by removals alone, of requests with no attempt out. -/
def probeRuns (q : QueueKeys) (clients : ι → Client) : Timed.Machine ℚ (System ι) (Event ι) where
  step now e sys := sys.step q clients now e
  allowed now e sys := (e.Fair q clients now sys ∧ e.Answered) ∧ Lasts q sys.clock now sys.store ∧
    e.Spares q clients now sys

omit [DecidableEq ι] in
theorem kept_start {store : State} (bare : Bare q t store) (unset : Unset q t store) :
    Kept q t (System.start clients store t) := by
  refine ⟨rfl, ⟨?_, unset⟩, ?_⟩
  · intro id there
    rw [System.start, bare id] at there
    cases there
  · intro id used
    cases used

omit [DecidableEq ι] in
theorem singleFlight_start {store : State} (bare : Bare q t store) :
    SingleFlight q t (System.start clients store t) := by
  refine ⟨fun id => ⟨?_, ?_, ?_⟩, ?_, List.nodup_nil⟩
  · intro i v x h view
    cases view
  · intro a out
    cases out
  · intro i x confirmed
    cases confirmed
  · rintro id other (⟨a, out, -⟩ | ⟨there, -⟩) -
    · cases out
    · rw [System.start, bare id] at there
      cases there

/-- With no grants isolated, at most one attempt is out whose pass got it nominated. -/
theorem probes_single_flight (shared : ∀ i, (clients i).usesGrantIsolation = false)
    {store : State} (bare : Bare q t store) (unset : Unset q t store) {history : List (ℚ × Event ι)}
    (valid : (probeRuns q clients).Valid t (.start clients store t) history) :
    (((probeRuns q clients).final (.start clients store t) history).record.attempts.filter Dispatch.started).length ≤ 1 := by
  have kept := valid.invariant
    (I := fun t sys => (Orderly q t sys ∧ Conformant sys ∧ Told sys) ∧ Accustomed clients sys ∧ Kept q t sys ∧
      SingleFlight q t sys)
    (by
      rintro t now e sys order ⟨⟨fair, answered⟩, lasts, spares⟩ ⟨⟨orderly, conformant, told⟩,
        accustomed, kept, single⟩
      have orderly' := orderly.later order
      obtain ⟨after, conformant'⟩ := orderly'.step conformant fair (orderly'.guarded conformant told e)
      exact ⟨⟨after, conformant', told.step answered⟩, accustomed.step e,
        kept.step order lasts orderly' fair answered spares,
        (single.later kept order lasts).step kept order lasts orderly' conformant told accustomed shared fair answered spares⟩)
    ⟨⟨orderly_start bare, conformant_start store, told_start store⟩, accustomed_start store, kept_start bare unset,
      singleFlight_start bare⟩
  obtain ⟨-, -, -, single⟩ := kept
  generalize (probeRuns q clients).final (.start clients store t) history = sys at single
  by_contra many
  obtain ⟨a, b, rest, two⟩ : ∃ a b rest, sys.record.attempts.filter Dispatch.started = a :: b :: rest := by
    match filtered : sys.record.attempts.filter Dispatch.started with
    | [] => simp [filtered] at many
    | [a] => simp [filtered] at many
    | a :: b :: rest => exact ⟨a, b, rest, rfl⟩
  have out : ∀ c ∈ [a, b], c ∈ sys.record.attempts ∧ c.started = true := by
    intro c member
    refine List.mem_filter.mp ?_
    rw [two]
    rcases List.mem_cons.mp member with rfl | member
    · exact List.mem_cons_self ..
    · rw [List.mem_singleton.mp member]
      exact List.mem_cons_of_mem _ (List.mem_cons_self ..)
  obtain ⟨outA, startedA⟩ := out a (by simp)
  obtain ⟨outB, startedB⟩ := out b (by simp)
  have same := single.alone _ _ (.inl ⟨a, outA, rfl, startedA⟩) (.inl ⟨b, outB, rfl, startedB⟩)
  have nodup := single.distinct.sublist (List.filter_sublist.map _ : List.Sublist
    ((sys.record.attempts.filter Dispatch.started).map fun a => a.request.requestId) _)
  rw [two] at nodup
  simp [same] at nodup

end Runs

section Tests

variable {q : QueueKeys} {slotKey : String} {clients : ι → Client}

/-- A test of sparing, for events that remove nothing in use and sweep nothing. -/
def Event.spares (clients : ι → Client) (sys : System ι) : Event ι → Bool
  | .pass i _ _ =>
    match sys.program clients i with
    | .call (.removeRequest _) _ => false
    | _ => true
  | .add request _ => decide (PlainId request.requestId)
  | .remove id _ => sys.record.attempts.all fun a => decide (a.request.requestId ≠ id)
  | .cleanup _ _ => false
  | _ => true

omit [DecidableEq ι] in
theorem Event.spares_of_test {now : ℚ} {sys : System ι} {e : Event ι} (test : e.spares clients sys = true) :
    e.Spares q clients now sys := by
  constructor
  · rintro id (⟨ttl, rfl⟩ | ⟨i, outlook, next, rfl, at_⟩)
    · simpa [Event.spares] using test
    · simp [Event.spares, at_] at test
  · cases e with
    | add request ttl => simpa [Event.spares] using test
    | cleanup alive current => cases test
    | _ => trivial

theorem probeRuns_of_test (confined : Confined q slotKey clients) (now : ℚ) (e : Event ι) (sys : System ι)
    (test : (e.fair q slotKey clients now sys && e.answered && e.spares clients sys &&
      (sys.store.sorted q.queueKey sys.clock).all fun id => decide (There q id now sys.store)) = true) :
    (probeRuns q clients).allowed now e sys := by
  simp only [Bool.and_eq_true] at test
  obtain ⟨⟨⟨fair, answered⟩, spares⟩, lasts⟩ := test
  refine ⟨⟨Event.fair_of_test confined fair, Event.answered_of_test answered⟩, ?_, Event.spares_of_test spares⟩
  intro id there
  exact of_decide_eq_true (List.all_eq_true.mp lasts id there.2)

/-- A probe is handed over, and the next entry is refused while it is out. -/
def refusedRun : List (ℚ × Event (Fin 2)) :=
  [(0, .add (plainRequest "first" "one") 86400), (1, .add (plainRequest "second" "two") 86400),
    (2, .pass 0 .answered {}), (3, .pass 0 .answered {}), (4, .pass 0 .answered {}), (5, .pass 0 .answered {}),
    (6, .pass 0 .answered {}), (7, .pass 1 .answered {}), (8, .pass 1 .answered {}), (9, .pass 1 .answered {}),
    (10, .pass 1 .answered {}), (11, .pass 1 .answered {})]

theorem probes_single_flight_contended :
    let sys := (probeRuns (clientQueue "ns") controllers).final (.start controllers probedStore 0) refusedRun
    sys.record.attempts.length = 1 ∧ (sys.record.attempts.filter Dispatch.started).length ≤ 1 := by
  have unset : Unset (clientQueue "ns") 0 probedStore := by
    have keeps : Keeps (clientQueue "ns").keys 0 State.fresh probedStore :=
      .putFields (outside_queue (by decide) (by decide)) State.fresh _ _
    intro e live
    rw [keeps.live _ QueueKeys.queueKey_mem] at live
    cases live
  exact ⟨by decide +kernel, probes_single_flight (fun _ => rfl) probedStore_bare unset
    (Timed.Machine.valid_of_checks (probeRuns_of_test controllers_confined) (by decide +kernel))⟩

end Tests

end Dianemo
