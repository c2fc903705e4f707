import Dianemo.Runs

namespace Dianemo

open JsNumber Meter

section Correction

variable (r : Rate) (p : Purse) (l : Level) (n : Note) (actual debt : ℚ)

/-- The four things a settlement can come to. -/
theorem correction_cases :
    (n.Gone p l ∧ correction r p l n actual debt = ⟨0, 0, p.forgiven⟩) ∨
      (¬ n.Gone p l ∧ 0 < actual - n.claimed ∧ ∃ used,
        used = Min.min (actual - n.claimed) (Max.max 0 (l.gauge.spill - n.overflow - (p.forgiven - n.forgiven))) ∧
        correction r p l n actual debt =
          ⟨Min.min (actual - n.claimed - used) (Max.max 0 (l.gauge.level + debt)),
            actual - n.claimed - used - Min.min (actual - n.claimed - used) (Max.max 0 (l.gauge.level + debt)),
            p.forgiven + used⟩) ∨
      (¬ n.Gone p l ∧ actual - n.claimed < 0 ∧ l.fills = n.fills ∧ correction r p l n actual debt =
        ⟨-Min.min (-(actual - n.claimed)) (Max.max 0 (r.maxTokens - l.gauge.level)), 0, p.forgiven⟩) ∨
      (¬ n.Gone p l ∧ actual - n.claimed ≤ 0 ∧ correction r p l n actual debt = ⟨0, 0, p.forgiven⟩) := by
  unfold correction
  by_cases gone : n.Gone p l
  · exact Or.inl ⟨gone, if_pos gone⟩
  · rw [if_neg gone]
    by_cases owes : 0 < actual - n.claimed
    · exact Or.inr (Or.inl ⟨gone, owes, _, rfl, if_pos owes⟩)
    · rw [if_neg owes]
      by_cases credits : actual - n.claimed < 0 ∧ l.fills = n.fills
      · exact Or.inr (Or.inr (Or.inl ⟨gone, credits.1, credits.2, if_pos credits⟩))
      · exact Or.inr (Or.inr (Or.inr ⟨gone, not_lt.mp owes, if_neg credits⟩))

theorem forgiven_le_correction : p.forgiven ≤ (correction r p l n actual debt).forgiven := by
  rcases correction_cases r p l n actual debt with
    ⟨-, same⟩ | ⟨-, owes, used, is_used, same⟩ | ⟨-, -, -, same⟩ | ⟨-, -, same⟩
  · rw [same]
  · have nonneg : 0 ≤ used := by
      rw [is_used]
      exact le_min owes.le (le_max_left _ _)
    rw [same]
    simpa using nonneg
  · rw [same]
  · rw [same]

/-- No settlement forgives more refill than was discarded. -/
theorem correction_forgiven_le (noted : n.forgiven ≤ n.overflow) (held : p.forgiven ≤ l.gauge.spill) :
    (correction r p l n actual debt).forgiven ≤ l.gauge.spill := by
  rcases correction_cases r p l n actual debt with
    ⟨-, same⟩ | ⟨-, owes, used, is_used, same⟩ | ⟨-, -, -, same⟩ | ⟨-, -, same⟩
  · rw [same]
    exact held
  · have slack : used ≤ Max.max 0 (l.gauge.spill - n.overflow - (p.forgiven - n.forgiven)) := by
      rw [is_used]
      exact min_le_right _ _
    rw [same]
    rcases max_choice 0 (l.gauge.spill - n.overflow - (p.forgiven - n.forgiven)) with none_ | some_
    · rw [none_] at slack
      simp only
      linarith
    · rw [some_] at slack
      simp only
      linarith
  · rw [same]
    exact held
  · rw [same]
    exact held

/-- A settlement leaves the balance no lower than the debt it may leave, nor
than the overdraft it came to settle. -/
theorem le_corrected :
    Min.min l.gauge.level (Max.max (-debt) (l.gauge.level - (actual - n.claimed))) ≤
      l.gauge.level - (correction r p l n actual debt).applied := by
  rcases correction_cases r p l n actual debt with
    ⟨-, same⟩ | ⟨-, owes, used, is_used, same⟩ | ⟨-, refunds, -, same⟩ | ⟨-, -, same⟩
  · rw [same, sub_zero]
    exact min_le_left _ _
  · have spared : 0 ≤ used := by
      rw [is_used]
      exact le_min owes.le (le_max_left _ _)
    rw [same]
    simp only
    rcases le_total 0 (l.gauge.level + debt) with room | none_
    · rw [max_eq_right room]
      refine (min_le_right _ _).trans (max_le ?_ ?_)
      · linarith [min_le_right (actual - n.claimed - used) (l.gauge.level + debt)]
      · linarith [min_le_left (actual - n.claimed - used) (l.gauge.level + debt)]
    · rw [max_eq_left none_]
      refine (min_le_left _ _).trans ?_
      linarith [min_le_right (actual - n.claimed - used) 0]
  · rw [same, sub_neg_eq_add]
    refine (min_le_left _ _).trans (le_add_of_nonneg_right (le_min ?_ (le_max_left _ _)))
    linarith
  · rw [same, sub_zero]
    exact min_le_left _ _

theorem corrected_le (ceiling : l.gauge.level ≤ r.maxTokens) :
    l.gauge.level - (correction r p l n actual debt).applied ≤ r.maxTokens := by
  rcases correction_cases r p l n actual debt with
    ⟨-, same⟩ | ⟨-, owes, used, is_used, same⟩ | ⟨-, refunds, -, same⟩ | ⟨-, -, same⟩
  · rw [same, sub_zero]
    exact ceiling
  · have rest : 0 ≤ actual - n.claimed - used := by
      rw [is_used]
      exact sub_nonneg.mpr (min_le_left _ _)
    have taken : 0 ≤ Min.min (actual - n.claimed - used) (Max.max 0 (l.gauge.level + debt)) :=
      le_min rest (le_max_left _ _)
    rw [same]
    simp only
    linarith
  · have back := min_le_right (-(actual - n.claimed)) (Max.max 0 (r.maxTokens - l.gauge.level))
    rw [max_eq_right (by linarith)] at back
    rw [same, sub_neg_eq_add, max_eq_right (by linarith)]
    linarith
  · rw [same, sub_zero]
    exact ceiling

end Correction

/-- A settlement that acts either finds no mark, consumes one with no bucket
left to correct, or corrects the bucket. -/
theorem Book.settle_cases (b : Book) (r : Rate) (id : String) (actual debt now : ℚ) :
    (b.notes id = none ∧ b.settle r id actual debt now = b) ∨
      (∃ n, b.notes id = some n ∧ b.purse = none ∧
        b.settle r id actual debt now = { b with notes := Function.update b.notes id none }) ∨
      ∃ n p, b.notes id = some n ∧ b.purse = some p ∧
        b.settle r id actual debt now =
          { purse := some ⟨(p.level.refill r now).spend (correction r p (p.level.refill r now) n actual debt).applied,
              p.generation, (correction r p (p.level.refill r now) n actual debt).forgiven, p.epoch,
              now + (bucketTtl 86400 r.config).toRat * 1000⟩
            notes := Function.update b.notes id none
            epochs := b.epochs } := by
  unfold Book.settle
  cases noted : b.notes id with
  | none => exact Or.inl ⟨rfl, rfl⟩
  | some n =>
    right
    simp only [Book.correct]
    cases found : b.purse with
    | none => exact Or.inl ⟨n, rfl, rfl, rfl⟩
    | some p => exact Or.inr ⟨n, p, rfl, rfl, rfl⟩

theorem noted_of_consumed {notes : String → Option Note} {id other : String} {n : Note}
    (found : Function.update notes id none other = some n) : other ≠ id ∧ notes other = some n := by
  by_cases same : other = id
  · subst same
    rw [Function.update_self] at found
    cases found
  · rw [Function.update_of_ne same] at found
    exact ⟨same, found⟩

/-- The bounds every bucket keeps. -/
structure Purse.Sound (r : Rate) (debt now : ℚ) (p : Purse) : Prop where
  floor : -(Max.max debt (balanceTolerance * r.maxTokens)) ≤ p.level.gauge.level
  ceiling : p.level.gauge.level ≤ r.maxTokens
  clock : p.level.gauge.clock ≤ now
  forgiven_nonneg : 0 ≤ p.forgiven
  forgiven_le : p.forgiven ≤ p.level.gauge.spill

structure Book.Sound (r : Rate) (debt now : ℚ) (b : Book) : Prop where
  purse : ∀ p, b.purse = some p → p.Sound r debt now
  notes : ∀ id n, b.notes id = some n → n.forgiven ≤ n.overflow

/-- The counters that only grow. -/
structure Purse.Le (p q : Purse) : Prop where
  overflow : p.level.gauge.spill ≤ q.level.gauge.spill
  fills : p.level.fills ≤ q.level.fills
  forgiven : p.forgiven ≤ q.forgiven
  generation : p.generation ≤ q.generation

theorem Purse.Le.trans {p q o : Purse} (first : p.Le q) (second : q.Le o) : p.Le o :=
  ⟨first.overflow.trans second.overflow, first.fills.trans second.fills, first.forgiven.trans second.forgiven,
    first.generation.trans second.generation⟩

theorem Level.fills_le_refill (r : Rate) (now : ℚ) (l : Level) : l.fills ≤ (l.refill r now).fills := by
  unfold Level.refill
  simp only
  split
  · exact le_add_of_nonneg_right zero_le_one
  · exact le_rfl

section Bounds

variable {r : Rate} {debt now t : ℚ} {b : Book}

theorem debt_floor_neg (r : Rate) (debt : ℚ) : -(Max.max debt (balanceTolerance * r.maxTokens)) < 0 := by
  have positive := mul_pos balanceTolerance_pos r.maxTokens_pos
  have above := le_max_right debt (balanceTolerance * r.maxTokens)
  linarith

theorem Purse.Sound.refill {p : Purse} (sound : p.Sound r debt now) :
    ({ p with level := p.level.refill r now } : Purse).Sound r debt now := by
  have fed := r.rule.feed_nonneg r.tokensToAdd_pos.le p.level.gauge.clock now
  refine ⟨le_min ?_ ?_, min_le_left _ _, Rule.clock_le sound.clock, sound.forgiven_nonneg, ?_⟩
  · exact (debt_floor_neg r debt).le.trans r.maxTokens_pos.le
  · exact sound.floor.trans (le_add_of_nonneg_right fed)
  · exact sound.forgiven_le.trans Gauge.spill_le_advance

theorem Book.Sound.refilled (sound : b.Sound r debt now) (expiresAt : ℚ) :
    Purse.Sound r debt now ⟨b.level r now, b.generation, b.forgiven, b.epoch, expiresAt⟩ := by
  unfold Book.level Book.forgiven
  cases found : b.purse with
  | none =>
    refine ⟨?_, le_rfl, le_rfl, le_rfl, le_rfl⟩
    exact (debt_floor_neg r debt).le.trans r.maxTokens_pos.le
  | some p =>
    obtain ⟨floor, ceiling, clock, nonneg, le⟩ := (sound.purse p found).refill
    exact ⟨floor, ceiling, clock, nonneg, le⟩

theorem Book.Sound.later (sound : b.Sound r debt t) (order : t ≤ now) : (b.asOf now).Sound r debt now := by
  refine ⟨?_, ?_⟩
  · intro p found
    have held := sound.purse p (Option.filter_eq_some_iff.mp found).1
    exact ⟨held.floor, held.ceiling, held.clock.trans order, held.forgiven_nonneg, held.forgiven_le⟩
  · intro id n found
    exact sound.notes id n (Option.filter_eq_some_iff.mp found).1

theorem Book.Sound.act (nonneg : 0 ≤ debt) (sound : b.Sound r debt now) {action : Action} (uses : action.Uses r)
    (fits : action.Fits now b.account) (owes : ∀ spec, action = .settle spec → spec.maxDebt = fin debt) :
    (b.act r now action).Sound r debt now := by
  have refilled := sound.refilled
  cases action with
  | touch config ttl =>
    refine ⟨?_, sound.notes⟩
    rintro p ⟨⟩
    exact refilled _
  | spend config cost ttl mark epoch =>
    cases uses
    obtain ⟨-, free, covers⟩ := spend_fits fits
    have spent := Level.spend_bounds free covers
    have bounds := refilled 0
    have sound_spent : ∀ epoch expiresAt, Purse.Sound r debt now
        ⟨(b.level r now).spend cost.toRat, b.generation, b.forgiven, epoch, expiresAt⟩ := by
      intro epoch expiresAt
      refine ⟨?_, spent.2.trans bounds.ceiling, bounds.clock, bounds.forgiven_nonneg, bounds.forgiven_le⟩
      exact (neg_le_neg (le_max_right _ _)).trans spent.1
    cases mark with
    | none =>
      refine ⟨?_, sound.notes⟩
      rintro p ⟨⟩
      exact sound_spent _ _
    | some claim =>
      refine ⟨?_, ?_⟩
      · rintro p ⟨⟩
        exact sound_spent _ _
      · intro id n found
        by_cases same : id = claim.1
        · subst same
          simp only [Book.act, Book.spend, Book.mark, Function.update_self, Option.some.injEq] at found
          subst found
          exact bounds.forgiven_le
        · simp only [Book.act, Book.spend, Book.mark, Function.update_of_ne same] at found
          exact sound.notes id n found
  | credit cost maxTokens =>
    refine ⟨?_, sound.notes⟩
    intro p found
    simp only [Book.act, Book.credit, Option.map_eq_some_iff] at found
    obtain ⟨q, held, rfl⟩ := found
    obtain ⟨c, rfl, free⟩ := usableCost_iff.mp fits
    have bounds := sound.purse q held
    refine ⟨le_min ?_ ?_, min_le_left _ _, bounds.clock, bounds.forgiven_nonneg, bounds.forgiven_le⟩
    · exact (debt_floor_neg r debt).le.trans r.maxTokens_pos.le
    · exact bounds.floor.trans (le_add_of_nonneg_right free)
  | empty config =>
    refine ⟨?_, sound.notes⟩
    rintro p ⟨⟩
    cases found : b.purse with
    | none =>
      refine ⟨?_, ?_, le_rfl, ?_, ?_⟩
      · simpa using (debt_floor_neg r debt).le
      · simpa using r.maxTokens_pos.le
      · simp [Book.forgiven, found]
      · simp [Book.forgiven, found]
    | some q =>
      have bounds := sound.purse q found
      refine ⟨?_, ?_, le_rfl, ?_, ?_⟩
      · simp only [Option.elim_some]
        exact le_min bounds.floor (debt_floor_neg r debt).le
      · simpa using Or.inr r.maxTokens_pos.le
      · simpa [Book.forgiven, found] using bounds.forgiven_nonneg
      · simpa [Book.forgiven, found] using bounds.forgiven_le
  | reset maxTokens =>
    refine ⟨?_, sound.notes⟩
    rintro p ⟨⟩
    have floor := (debt_floor_neg r debt).le.trans r.maxTokens_pos.le
    cases found : b.purse with
    | none =>
      refine ⟨floor, le_rfl, le_rfl, ?_, ?_⟩
      · simp [Book.forgiven, found]
      · simp [Book.forgiven, found]
    | some q =>
      have bounds := sound.purse q found
      refine ⟨floor, le_rfl, le_rfl, ?_, ?_⟩
      · simpa [Book.forgiven, found] using bounds.forgiven_nonneg
      · simpa [Book.forgiven, found] using bounds.forgiven_le
  | settle spec =>
    have limit : debtOf spec.maxDebt = debt := by
      rw [owes spec rfl, debtOf]
      split
      · rfl
      · linarith
    simp only [Book.act]
    split
    · rw [limit]
      rcases b.settle_cases r spec.markId spec.actual.toRat debt now with
        ⟨-, same⟩ | ⟨n, noted, empty, same⟩ | ⟨n, p, noted, held, same⟩
      · rw [same]
        exact sound
      · rw [same]
        exact ⟨sound.purse, fun id m found => sound.notes id m (noted_of_consumed found).2⟩
      · rw [same]
        have bounds := (sound.purse p held).refill
        refine ⟨?_, fun id m found => sound.notes id m (noted_of_consumed found).2⟩
        rintro q ⟨⟩
        refine ⟨?_, corrected_le r p _ n _ debt bounds.ceiling, bounds.clock, ?_, ?_⟩
        · refine le_trans (le_min bounds.floor ?_) (le_corrected r p _ n spec.actual.toRat debt)
          exact (neg_le_neg (le_max_left _ _)).trans (le_max_left _ _)
        · exact bounds.forgiven_nonneg.trans (forgiven_le_correction r p _ n _ debt)
        · exact correction_forgiven_le r p _ n _ debt (sound.notes _ n noted) bounds.forgiven_le
    · exact sound
  | prolong id ttl =>
    refine ⟨sound.purse, ?_⟩
    intro other n found
    by_cases same : other = id
    · subst same
      simp only [Book.act, Function.update_self, Option.map_eq_some_iff] at found
      obtain ⟨m, noted, rfl⟩ := found
      exact sound.notes other m noted
    · simp only [Book.act, Function.update_of_ne same] at found
      exact sound.notes other n found
  | drop bucket ids =>
    refine ⟨?_, ?_⟩
    · intro p found
      cases bucket with
      | true => cases found
      | false => exact sound.purse p found
    · intro id n found
      simp only [Book.act] at found
      split at found
      · cases found
      · exact sound.notes id n found

/-- No action but a deletion takes a counter back. -/
theorem Book.act_grows (r : Rate) (now : ℚ) {action : Action} {p : Purse} (held : b.purse = some p)
    (stays : ∀ bucket ids, action ≠ .drop bucket ids) : ∃ q, (b.act r now action).purse = some q ∧ p.Le q := by
  have spill : p.level.gauge.spill ≤ (b.level r now).gauge.spill := by
    simp only [Book.level, held, Option.elim_some]
    exact Gauge.spill_le_advance
  have fills : p.level.fills ≤ (b.level r now).fills := by
    simp only [Book.level, held, Option.elim_some]
    exact p.level.fills_le_refill r now
  have forgiven : p.forgiven ≤ b.forgiven := by simp [Book.forgiven, held]
  have generation : p.generation ≤ b.generation := by simp [Book.generation, held]
  cases action with
  | touch config ttl => exact ⟨_, rfl, spill, fills, forgiven, generation⟩
  | spend config cost ttl mark epoch =>
    cases mark with
    | none => exact ⟨_, rfl, spill, fills, forgiven, generation⟩
    | some claim => exact ⟨_, rfl, spill, fills, forgiven, generation⟩
  | credit cost maxTokens =>
    simp only [Book.act, Book.credit, held, Option.map_some]
    exact ⟨_, rfl, le_rfl, le_rfl, le_rfl, le_rfl⟩
  | empty config =>
    refine ⟨_, rfl, ?_, ?_, forgiven, generation.trans (le_add_of_nonneg_right zero_le_one)⟩
    · simp [held]
    · simp [held]
  | reset maxTokens =>
    refine ⟨_, rfl, ?_, ?_, forgiven, generation.trans (le_add_of_nonneg_right zero_le_one)⟩
    · simp [held]
    · simp [held]
  | settle spec =>
    simp only [Book.act]
    split
    · rcases b.settle_cases r spec.markId spec.actual.toRat (debtOf spec.maxDebt) now with
        ⟨-, same⟩ | ⟨n, -, empty, -⟩ | ⟨n, q, -, found, same⟩
      · rw [same]
        exact ⟨p, held, le_rfl, le_rfl, le_rfl, le_rfl⟩
      · rw [held] at empty
        cases empty
      · cases Option.some.inj (held.symm.trans found)
        rw [same]
        refine ⟨_, rfl, ?_, p.level.fills_le_refill r now, forgiven_le_correction r p _ n _ _, le_rfl⟩
        exact Gauge.spill_le_advance
    · exact ⟨p, held, le_rfl, le_rfl, le_rfl, le_rfl⟩
  | prolong id ttl => exact ⟨p, held, le_rfl, le_rfl, le_rfl, le_rfl⟩
  | drop bucket ids => exact absurd rfl (stays bucket ids)

end Bounds

/-- Calls under one rate and one debt, deletions apart. -/
def BucketCall.Bounded (r : Rate) (debt : ℚ) (key : String) (call : BucketCall) : Prop :=
  call.Under r key ∧ (∀ spec ∈ call.settles key, spec.maxDebt = fin debt) ∧ ∀ keys, call ≠ .del keys

def soundRuns (r : Rate) (debt : ℚ) (key : String) : Timed.Machine ℚ State BucketCall :=
  bucketRuns key fun now call s => call.Bounded r debt key ∧ call.Apart key Set.univ now s

/-- Runs through which one incarnation of the bucket lives on. -/
def lastingRuns (r : Rate) (debt : ℚ) (key : String) : Timed.Machine ℚ State BucketCall :=
  bucketRuns key fun now call s =>
    (s.live key now).isSome = true ∧ call.Bounded r debt key ∧ call.Apart key Set.univ now s

/-- What a bounded call's actions are like. -/
theorem BucketCall.Bounded.proper {r : Rate} {debt : ℚ} {key : String} {call : BucketCall}
    (bounded : call.Bounded r debt key) {now : ℚ} {a : Account} {report : Report} {actions : List Action}
    (does : call.Does key now a report actions) : ∀ action ∈ actions,
      (∀ spec, action = .settle spec → spec.maxDebt = fin debt) ∧ ∀ bucket ids, action ≠ .drop bucket ids := by
  obtain ⟨-, owes, stays⟩ := bounded
  have drawn : ((call.draws key = [] ∧ actions = []) ∨ ∃ d, call.draws key = [d] ∧
      Draws d report.admitted actions) →
      ∀ action ∈ actions,
        (∀ spec, action = .settle spec → spec.maxDebt = fin debt) ∧ ∀ bucket ids, action ≠ .drop bucket ids := by
    rintro (⟨-, rfl⟩ | ⟨d, -, draws⟩)
    · simp
    · generalize report.admitted = admitted at draws
      cases draws <;> simp
  cases call with
  | acquireTokens cost config mark => exact drawn does
  | tryAdmitImmediately queueKey freezeKey cost config ttl mark => exact drawn does
  | acquireMultiLimit specs => exact drawn does
  | tryAdmitMultiLimit queueKey freezeKeys specs ttl => exact drawn does
  | getTokenBucketState config =>
    cases does
    simp
  | refundTokens cost maxTokens freezeKey => rcases does with rfl | rfl <;> simp
  | releaseMultiLimit specs =>
    intro action member
    obtain ⟨spec, -, -, rfl⟩ := does action member
    simp
  | emptyTokenBucket config =>
    cases does
    simp
  | resetTokenBucket maxTokens =>
    cases does
    simp
  | settleTokens specs =>
    obtain ⟨rfl, -⟩ := does
    intro action member
    obtain ⟨spec, found, rfl⟩ := List.mem_map.mp member
    refine ⟨?_, by simp⟩
    rintro other ⟨⟩
    exact owes spec found
  | touchClaimMark id ttlSeconds => rcases does with rfl | ⟨ttl, rfl⟩ <;> simp
  | del keys => exact absurd rfl (stays keys)
  | elsewhere after =>
    cases does
    simp

section SoundRuns

variable {r : Rate} {debt : ℚ} {key : String} {t now : ℚ} {s : State}

theorem sound_step (nonneg : 0 ≤ debt) {call : BucketCall} (later : t ≤ now) (bounded : call.Bounded r debt key)
    (apart : call.Apart key Set.univ now s) {b : Book} (follows : Follows key Set.univ t s b.account)
    (sound : b.Sound r debt t) : ∃ b' : Book, Follows key Set.univ now (call.exec key now s).2 b'.account ∧
      b'.Sound r debt now ∧
      ∀ p, (b.asOf now).purse = some p → ∃ q, b'.purse = some q ∧ p.Le q := by
  have there := follows.later later
  rw [b.asOf_account now] at there
  obtain ⟨actions, ⟨a', trail, after⟩, does⟩ := there.call apart
  obtain ⟨b', rfl, done, grown⟩ := trail.book
    (I := fun c => c.Sound r debt now ∧ ∀ p, (b.asOf now).purse = some p → ∃ q, c.purse = some q ∧ p.Le q)
    (fun c action uses proper fits held => ⟨held.1.act nonneg uses fits proper.1, fun p found => by
      obtain ⟨q, kept, le⟩ := held.2 p found
      obtain ⟨q', kept', le'⟩ := Book.act_grows r now kept proper.2
      exact ⟨q', kept', le.trans le'⟩⟩)
    (does.uses bounded.1) (bounded.proper does)
    ⟨sound.later later, fun p found => ⟨p, found, le_rfl, le_rfl, le_rfl, le_rfl⟩⟩
  exact ⟨b', after, done, grown⟩

theorem soundRuns_sound (nonneg : 0 ≤ debt) (untouched : s.store key = none)
    (unmarked : ∀ id, s.store (claimMarkKey key id) = none) {history : List (ℚ × BucketCall)}
    (valid : (soundRuns r debt key).Valid t s history) :
    ∃ b : Book, Follows key Set.univ ((soundRuns r debt key).clock t history)
      ((soundRuns r debt key).final s history)
      b.account ∧ b.Sound r debt ((soundRuns r debt key).clock t history) := by
  have start : Follows key Set.univ t s (Book.blank s.epochs).account :=
    Follows.absent (by simp [State.live, untouched]) fun id _ => by simp [State.live, unmarked id]
  have blank : (Book.blank s.epochs).Sound r debt t := by
    constructor
    · intro p found
      cases found
    · intro id claim found
      cases found
  refine valid.invariant (I := fun t s => ∃ b : Book, Follows key Set.univ t s b.account ∧ b.Sound r debt t) ?_
    ⟨_, start, blank⟩
  rintro t now call s later ⟨bounded, apart⟩ ⟨b, follows, sound⟩
  obtain ⟨b', after, done, -⟩ := sound_step nonneg later bounded apart follows sound
  exact ⟨b', after, done⟩

theorem follows_live {b : Book} (follows : Follows key Set.univ t s b.account)
    (alive : (s.live key t).isSome = true) :
    ∃ p, b.purse = some p ∧ BucketAt s key t (some p.bucket) := by
  have at_ := follows.bucket
  have purse : b.account.bucket = b.purse.map Purse.bucket := rfl
  rw [purse] at at_
  cases found : b.purse with
  | none =>
    rw [found] at at_
    have gone : s.live key t = none := at_
    rw [gone] at alive
    cases alive
  | some p =>
    rw [found] at at_
    exact ⟨p, rfl, at_⟩

/-- Every reachable bucket keeps its bounds, and while one incarnation of its
hash lives no counter of it decreases. -/
theorem bucket_sound (nonneg : 0 ≤ debt) (untouched : s.store key = none)
    (unmarked : ∀ id, s.store (claimMarkKey key id) = none) {early late : List (ℚ × BucketCall)}
    (valid : (soundRuns r debt key).Valid t s early)
    (lasting : (lastingRuns r debt key).Valid ((soundRuns r debt key).clock t early)
      ((soundRuns r debt key).final s early) late) :
    (∀ now, (soundRuns r debt key).clock t early ≤ now →
      (((soundRuns r debt key).final s early).live key now).isSome = true →
      ∃ p : Purse, BucketAt ((soundRuns r debt key).final s early) key now (some p.bucket) ∧
        -(Max.max debt (1 / 1000000000 * r.maxTokens)) ≤ p.level.gauge.level ∧ p.level.gauge.level ≤ r.maxTokens ∧
        p.level.gauge.clock ≤ now ∧ 0 ≤ p.forgiven ∧ p.forgiven ≤ p.level.gauge.spill) ∧
    ((((soundRuns r debt key).final s early).live key ((soundRuns r debt key).clock t early)).isSome = true →
      ∃ p q : Purse,
        BucketAt ((soundRuns r debt key).final s early) key ((soundRuns r debt key).clock t early) (some p.bucket) ∧
        BucketAt ((lastingRuns r debt key).final ((soundRuns r debt key).final s early) late) key
          ((lastingRuns r debt key).clock ((soundRuns r debt key).clock t early) late) (some q.bucket) ∧
        p.level.gauge.spill ≤ q.level.gauge.spill ∧ p.level.fills ≤ q.level.fills ∧ p.forgiven ≤ q.forgiven ∧
        p.generation ≤ q.generation) := by
  obtain ⟨b, follows, sound⟩ := soundRuns_sound nonneg untouched unmarked valid
  constructor
  · intro now later alive
    have there := follows.later later
    rw [b.asOf_account now] at there
    obtain ⟨p, held, at_⟩ := follows_live there alive
    have bounds := (sound.later later).purse p held
    exact ⟨p, at_, bounds.floor, bounds.ceiling, bounds.clock, bounds.forgiven_nonneg, bounds.forgiven_le⟩
  · intro alive
    obtain ⟨p, held, at_⟩ := follows_live follows alive
    obtain ⟨c, after, -, q, kept, grown⟩ := lasting.invariant
      (I := fun t s => ∃ c : Book, Follows key Set.univ t s c.account ∧ c.Sound r debt t ∧
        ∃ q, c.purse = some q ∧ p.Le q)
      (by
        rintro t now call s later ⟨alive, bounded, apart⟩ ⟨c, follows, sound, q, kept, le⟩
        obtain ⟨c', after, done, grows⟩ := sound_step nonneg later bounded apart follows sound
        have there := follows.later later
        rw [c.asOf_account now] at there
        obtain ⟨q', held', -⟩ := follows_live there alive
        have same : q' = q := Option.some.inj ((Option.filter_eq_some_iff.mp held').1.symm.trans kept)
        obtain ⟨o, kept', le'⟩ := grows q' held'
        exact ⟨c', after, done, o, kept', le.trans (same ▸ le')⟩)
      ⟨b, follows, sound, p, held, le_rfl, le_rfl, le_rfl, le_rfl⟩
    have last := after.bucket
    have purse : c.account.bucket = some q.bucket := by simp [Book.account, kept]
    rw [purse] at last
    exact ⟨p, q, at_, last, grown.overflow, grown.fills, grown.forgiven, grown.generation⟩

end SoundRuns

/-- A claim of four, settled half a second later at twenty. -/
def overspentRun : List (ℚ × BucketCall) :=
  [(0, .acquireTokens 4 fivePerSecond.config (some ⟨"claim", 60⟩)),
    (500, .settleTokens [⟨"bucket", "claim", 20, fivePerSecond.config, 6⟩])]

theorem bucket_sound_overspent :
    ∃ p q : Purse, BucketAt ((soundRuns fivePerSecond 6 "bucket").final State.fresh overspentRun) "bucket" 500 (some p.bucket) ∧
      BucketAt ((lastingRuns fivePerSecond 6 "bucket").final ((soundRuns fivePerSecond 6 "bucket").final State.fresh overspentRun)
        [(60000, .emptyTokenBucket fivePerSecond.config)]) "bucket" 60000 (some q.bucket) ∧
      p.level.gauge.spill ≤ q.level.gauge.spill ∧ p.level.fills ≤ q.level.fills ∧ p.forgiven ≤ q.forgiven ∧
      p.generation ≤ q.generation := by
  have claims : ∀ now s, (soundRuns fivePerSecond 6 "bucket").allowed now
      (.acquireTokens 4 fivePerSecond.config (some ⟨"claim", 60⟩)) s := by
    intro now s
    refine ⟨⟨⟨?_, ?_, ?_⟩, ?_, by simp⟩, trivial⟩ <;>
      simp [BucketCall.draws, BucketCall.credits, BucketCall.settles]
  have settles : ∀ now s, (soundRuns fivePerSecond 6 "bucket").allowed now
      (.settleTokens [⟨"bucket", "claim", 20, fivePerSecond.config, 6⟩]) s := by
    intro now s
    refine ⟨⟨⟨?_, ?_, ?_⟩, ?_, by simp⟩, ?_⟩ <;>
      simp [BucketCall.draws, BucketCall.credits, BucketCall.settles, BucketCall.Apart]
  have valid : (soundRuns fivePerSecond 6 "bucket").Valid 0 State.fresh overspentRun :=
    Timed.Machine.valid_cons.mpr ⟨le_rfl, claims _ _,
      Timed.Machine.valid_cons.mpr ⟨by norm_num, settles _ _, Timed.Machine.valid_nil⟩⟩
  have alive : (((soundRuns fivePerSecond 6 "bucket").final State.fresh overspentRun).live "bucket" 60000).isSome = true := by
    decide +kernel
  have empties : ∀ s, (s.live "bucket" 60000).isSome = true → (lastingRuns fivePerSecond 6 "bucket").allowed 60000
      (.emptyTokenBucket fivePerSecond.config) s := by
    intro s alive
    refine ⟨alive, ⟨Eq.refl fivePerSecond.config, ?_, ?_⟩, trivial⟩ <;> simp [BucketCall.settles]
  have lasting : (lastingRuns fivePerSecond 6 "bucket").Valid
      ((soundRuns fivePerSecond 6 "bucket").clock 0 overspentRun)
      ((soundRuns fivePerSecond 6 "bucket").final State.fresh overspentRun)
      [(60000, .emptyTokenBucket fivePerSecond.config)] :=
    Timed.Machine.valid_cons.mpr ⟨by decide +kernel, empties _ alive, Timed.Machine.valid_nil⟩
  exact (bucket_sound (by norm_num) rfl (fun _ => rfl) valid lasting).2 (by decide +kernel)

end Dianemo
