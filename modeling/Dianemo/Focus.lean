import Dianemo.MultiPlan

namespace Dianemo

open JsNumber

/-- A planned bucket written back unspent. -/
def PlannedBucket.write (ttl now : ℚ) (s : State) (bucket : PlannedBucket) : State :=
  s.putFields bucket.key now bucket.state.fields (bucketTtl ttl bucket.config).toRat

/-- A planned bucket spent. -/
def PlannedBucket.spend (ttl now : ℚ) (s : State) (bucket : PlannedBucket) : State :=
  s.spend bucket.key bucket.state bucket.cost (bucketTtl ttl bucket.config).toRat bucket.mark now

def PlannedSlot.take (ttl now : ℚ) (s : State) (slot : PlannedSlot) : State :=
  s.takeSlot slot.key slot.slotId slot.cost ttl now

theorem bucketTtl_sized {ttl : ℚ} (whole : WholeTtl ttl) {cost : JsNumber} {config : TokenBucketConfig}
    (usable : unusableBudget cost config = none) :
    WholeTtl (bucketTtl ttl config).toRat ∧ normalizeTtlSeconds (bucketTtl ttl config) =
      .ok (bucketTtl ttl config).toRat := by
  obtain ⟨lifetime, sized, lives, -⟩ := bucketTtl_whole whole usable
  rw [sized]
  exact ⟨lives, lives.normalize⟩

section Attempt

variable {claims : List ClaimSpec} {ttl now : ℚ} {s : State}

theorem plannedBuckets_usable (usable : ∀ c ∈ claims, c.unusable = none) {bucket : PlannedBucket}
    (member : bucket ∈ plannedBuckets now claims s) : unusableBudget bucket.cost bucket.config = none := by
  obtain ⟨spec, found, -, cost, config⟩ := mem_plannedBuckets member
  rw [cost, config]
  exact usable _ found

theorem plannedBuckets_marked (normal : ∀ c ∈ claims, c.Normal) {bucket : PlannedBucket}
    (member : bucket ∈ plannedBuckets now claims s) : ∀ claim ∈ bucket.mark, WholeTtl claim.2 := by
  obtain ⟨spec, found, -⟩ := mem_plannedBuckets member
  intro claim marked
  have made : claimMark spec.mark = .ok bucket.mark := normal _ found
  rw [Option.mem_def.mp marked] at made
  exact claimMark_whole made

/-- A claim in closed form: stopped at an unusable budget, refused with the
refills written, or committed to every budget. -/
inductive Attempt (claims : List ClaimSpec) (ttl now : ℚ) (s : State) : Bool → State → Prop
  | stopped {early c late} : claims = early ++ c :: late → (∀ before ∈ early, before.unusable = none) →
      Attempt claims ttl now s false (checked now early s)
  | refused : (∀ c ∈ claims, c.unusable = none) → allFit now claims s = false →
      Attempt claims ttl now s false
        ((plannedBuckets now claims s).foldl (PlannedBucket.write ttl now) (checked now claims s))
  | admitted : (∀ c ∈ claims, c.unusable = none) → allFit now claims s = true →
      Attempt claims ttl now s true ((claims.flatMap ClaimSpec.slots).foldl (PlannedSlot.take ttl now)
        ((plannedBuckets now claims s).foldl (PlannedBucket.spend ttl now) (checked now claims s)))

theorem commitPlan_attempt (whole : WholeTtl ttl) (normal : ∀ c ∈ claims, c.Normal) (now : ℚ) (s : State) :
    ∃ s', (commitPlan (planMultiLimit now claims {} s).1 ttl now).run
      (planMultiLimit now claims {} s).2 = (.ok (), s') ∧
      Attempt claims ttl now s ((planMultiLimit now claims {} s).1.error.isNone &&
        (planMultiLimit now claims {} s).1.acquired) s' := by
  rcases planMultiLimit_cases now claims {} rfl s with stopped | drawn
  · obtain ⟨early, c, late, split, usable, -, error, reached⟩ := stopped
    have set : (planMultiLimit now claims {} s).1.error.isNone = false := by
      rw [← Option.not_isSome, error]
      rfl
    refine ⟨checked now early s, ?_, ?_⟩
    · rw [commitPlan, if_pos error, reached]
      rfl
    · rw [set, Bool.false_and]
      exact .stopped split usable
  · obtain ⟨usable, error, reached, acquired, buckets, slots⟩ := drawn
    rw [Bool.true_and] at acquired
    rw [List.nil_append] at buckets
    rw [error, acquired, reached, Option.isNone_none, Bool.true_and]
    have clean : ¬ (planMultiLimit now claims {} s).1.error.isSome = true := by
      rw [error]
      exact Bool.false_ne_true
    cases fit : allFit now claims s with
    | false =>
      refine ⟨_, ?_, .refused usable fit⟩
      have declined : ¬ (planMultiLimit now claims {} s).1.acquired = true := by
        rw [acquired, fit]
        exact Bool.false_ne_true
      rw [commitPlan, if_neg clean, if_pos declined, buckets]
      refine Op.forEach_run _ (fun bucket member u => ?_) _
      obtain ⟨lives, sized⟩ := bucketTtl_sized whole (plannedBuckets_usable usable member)
      exact writeBucket_run lives (some bucket.config) sized _ _ _ _
    | true =>
      refine ⟨_, ?_, .admitted usable fit⟩
      rw [fit] at acquired
      rw [commitPlan, if_neg clean, if_neg (not_not_intro acquired), buckets, slots fit, List.nil_append]
      rw [Op.run_bind_ok (Op.forEach_run (plannedBuckets now claims s) (fun bucket member u => ?_) _)]
      · exact Op.forEach_run _ (fun slot _ u => claimSlot_run whole _ _ _ _ _) _
      · obtain ⟨lives, sized⟩ := bucketTtl_sized whole (plannedBuckets_usable usable member)
        exact spendTokens_run lives sized (plannedBuckets_marked normal member) _ _ _ _ _

end Attempt

theorem Plan.report_acquired (plan : Plan) : plan.report.acquired = (plan.error.isNone && plan.acquired) := by
  unfold Plan.report
  cases plan.error with
  | some error => rfl
  | none => cases admitted : plan.acquired <;> simp

/-- `acquireMultiLimit` throws on a mark it cannot keep, and is otherwise one attempt. -/
theorem acquireMultiLimit_run (specs : List MultiLimitSpec) (now : ℚ) (s : State) :
    (∃ e, (acquireMultiLimit specs now).run s = (.error e, s)) ∨
      ∃ claims result s', claimMarks specs = .ok claims ∧ (acquireMultiLimit specs now).run s = (.ok result, s') ∧
        Attempt claims 86400 now s result.acquired s' := by
  cases marks : claimMarks specs with
  | error e =>
    refine Or.inl ⟨e, ?_⟩
    rw [acquireMultiLimit, Op.run_bind_error (by rw [marks]; rfl)]
  | ok claims =>
    obtain ⟨s', run, outcome⟩ := commitPlan_attempt WholeTtl.day (claimMarks_normal marks).2 now s
    refine Or.inr ⟨claims, (planMultiLimit now claims {} s).1.report, s', rfl, ?_, ?_⟩
    · rw [acquireMultiLimit, Op.run_bind_ok (by rw [marks]; rfl), Op.run_bind_ok (by rfl),
        ofNat_eq, Op.run_bind_ok run]
      rfl
    · rw [Plan.report_acquired]
      exact outcome

theorem tryAdmitMultiLimit_run (queueKey : String) (freezeKeys : List String) (specs : List MultiLimitSpec)
    (ttl : JsNumber) (now : ℚ) (s : State) :
    (∃ e, (tryAdmitMultiLimit queueKey freezeKeys specs ttl now).run s = (.error e, s)) ∨
      (tryAdmitMultiLimit queueKey freezeKeys specs ttl now).run s = (.ok false, s) ∨
      ∃ keyTtl claims admitted s', normalizeStateTtlSeconds ttl = .ok keyTtl ∧ claimMarks specs = .ok claims ∧
        (tryAdmitMultiLimit queueKey freezeKeys specs ttl now).run s = (.ok admitted, s') ∧
        Attempt claims keyTtl now s admitted s' := by
  cases sized : normalizeStateTtlSeconds ttl with
  | error e =>
    refine Or.inl ⟨e, ?_⟩
    rw [tryAdmitMultiLimit, Op.run_bind_error (by rw [sized]; rfl)]
  | ok keyTtl =>
    rw [tryAdmitMultiLimit, Op.run_bind_ok (by rw [sized]; rfl)]
    cases marks : claimMarks specs with
    | error e =>
      refine Or.inl ⟨e, ?_⟩
      rw [Op.run_bind_error (Op.run_lift _ _)]
    | ok claims =>
      right
      rw [Op.run_bind_ok (Op.run_lift _ _), Op.run_bind_ok (Op.run_read s)]
      split
      · exact Or.inl rfl
      · obtain ⟨s', run, outcome⟩ :=
          commitPlan_attempt (normalizeStateTtlSeconds_whole sized) (claimMarks_normal marks).2 now s
        refine Or.inr ⟨keyTtl, claims, _, s', rfl, rfl, ?_, outcome⟩
        rw [Op.run_bind_ok (by rfl), Op.run_bind_ok run]
        rfl

theorem Keeps.refill {W : Set String} {now : ℚ} {s s' : State} (keeps : Keeps W now s s') {key : String}
    (watched : key ∈ W) (config : TokenBucketConfig) : refill s' key config now = refill s key config now := by
  simp only [Dianemo.refill, storedBucket, State.hget_congr (keeps.live key watched)]

theorem Keeps.foldl {α : Type} {W : Set String} {now : ℚ} {f : State → α → State} (xs : List α)
    (each : ∀ x ∈ xs, ∀ s, Keeps W now s (f s x)) (s : State) : Keeps W now s (xs.foldl f s) := by
  induction xs generalizing s with
  | nil => exact Keeps.refl W now s
  | cons x rest ih =>
    exact (each x List.mem_cons_self s).trans (ih (fun y member => each y (List.mem_cons_of_mem x member)) (f s x))

section Avoiding

variable {W : Set String} {claims : List ClaimSpec} {now : ℚ}

theorem checked_keeps (avoid : ∀ c ∈ claims, ∀ k ∈ c.spec.home, k ∉ W) (s : State) :
    Keeps W now s (checked now claims s) := by
  refine Keeps.foldl claims (fun c member u => ?_) s
  cases c with
  | tokenBucket spec mark => exact Keeps.refl W now u
  | concurrency spec =>
    exact Keeps.reapConcurrency (avoid _ member _ (by simp [ClaimSpec.spec, MultiLimitSpec.home]))
      (avoid _ member _ (by simp [ClaimSpec.spec, MultiLimitSpec.home])) u _

theorem written_keeps (ttl : ℚ) (avoid : ∀ c ∈ claims, ∀ k ∈ c.spec.home, k ∉ W) (s u : State) :
    Keeps W now u ((plannedBuckets now claims s).foldl (PlannedBucket.write ttl now) u) := by
  refine Keeps.foldl _ (fun bucket member v => ?_) u
  obtain ⟨spec, found, key, -⟩ := mem_plannedBuckets member
  refine Keeps.putFields ?_ v _ _
  rw [key]
  exact avoid _ found _ (by simp [ClaimSpec.spec, MultiLimitSpec.home])

theorem spent_keeps (ttl : ℚ) (normal : ∀ c ∈ claims, c.Normal)
    (avoid : ∀ c ∈ claims, ∀ k ∈ c.spec.footprint, k ∉ W)
    (s u : State) : Keeps W now u ((plannedBuckets now claims s).foldl (PlannedBucket.spend ttl now) u) := by
  refine Keeps.foldl _ (fun bucket member v => ?_) u
  obtain ⟨spec, found, key, -⟩ := mem_plannedBuckets member
  have away := avoid _ found
  simp only [ClaimSpec.spec, MultiLimitSpec.footprint, List.forall_mem_cons] at away
  refine Keeps.spend (key ▸ away.1) (fun claim marked => ?_) v _ _ _
  obtain ⟨mark, given, same⟩ := claimMark_id (normal _ found) marked
  refine away.2 _ ?_
  simp [given, key, same]

theorem taken_keeps (ttl : ℚ) (avoid : ∀ c ∈ claims, ∀ k ∈ c.spec.home, k ∉ W) (u : State) :
    Keeps W now u ((claims.flatMap ClaimSpec.slots).foldl (PlannedSlot.take ttl now) u) := by
  refine Keeps.foldl _ (fun slot member v => ?_) u
  obtain ⟨spec, found, rfl⟩ := mem_slots member
  exact Keeps.takeSlot (avoid _ found _ (by simp [ClaimSpec.spec, MultiLimitSpec.home]))
    (avoid _ found _ (by simp [ClaimSpec.spec, MultiLimitSpec.home])) v _ _ _ _

/-- A claim that is not admitted leaves alone every key that is not a budget's own. -/
theorem Attempt.refused_keeps {ttl : ℚ} {s s' : State} (attempt : Attempt claims ttl now s false s')
    (avoid : ∀ c ∈ claims, ∀ k ∈ c.spec.home, k ∉ W) : Keeps W now s s' := by
  cases attempt with
  | stopped split usable =>
    refine checked_keeps (fun before member => avoid before ?_) s
    rw [split]
    exact List.mem_append_left _ member
  | refused usable fit => exact (checked_keeps avoid s).trans (written_keeps ttl avoid s _)

/-- A claim on other budgets only. -/
theorem Attempt.keeps {ttl : ℚ} {s s' : State} {admitted : Bool} (attempt : Attempt claims ttl now s admitted s')
    (normal : ∀ c ∈ claims, c.Normal) (avoid : ∀ c ∈ claims, ∀ k ∈ c.spec.footprint, k ∉ W) : Keeps W now s s' := by
  have homes : ∀ c ∈ claims, ∀ k ∈ c.spec.home, k ∉ W :=
    fun c member k home => avoid c member k (c.spec.home_subset home)
  cases admitted with
  | false => exact attempt.refused_keeps homes
  | true =>
    cases attempt with
    | admitted usable fit =>
      exact ((checked_keeps homes s).trans (spent_keeps ttl normal avoid s _)).trans (taken_keeps ttl homes _)

end Avoiding

/-- What a refused claim writes to one of its budgets. -/
def ClaimSpec.refuse (ttl now : ℚ) (s : State) : ClaimSpec → State
  | .tokenBucket spec _ =>
    s.putFields spec.key now (refill s spec.key spec.config now).fields (bucketTtl ttl spec.config).toRat
  | .concurrency _ => s

/-- What an admitted claim writes to one of its budgets. -/
def ClaimSpec.commit (ttl now : ℚ) (s : State) : ClaimSpec → State
  | .tokenBucket spec mark =>
    s.spend spec.key (refill s spec.key spec.config now) spec.cost (bucketTtl ttl spec.config).toRat mark now
  | .concurrency spec => s.takeSlot spec.key spec.slotId spec.cost ttl now

/-- One budget's part in a claim, as the keys of `W` see it. -/
inductive Focus (W : Set String) (c : ClaimSpec) (ttl now : ℚ) (s : State) : Bool → State → Prop
  | skipped {s'} : Keeps W now s s' → Focus W c ttl now s false s'
  | planned {s₁ s'} : c.unusable = none → Keeps W now s s₁ → Keeps W now (c.check now s₁) s' →
      Focus W c ttl now s false s'
  | refused {s₁ s₂ s'} : c.unusable = none → Keeps W now s s₁ → Keeps W now (c.check now s₁) s₂ →
      Keeps W now (c.refuse ttl now s₂) s' → Focus W c ttl now s false s'
  | admitted {s₁ s₂ s'} : c.unusable = none → Keeps W now s s₁ → c.fits now (c.check now s₁) = true →
      Keeps W now (c.check now s₁) s₂ → Keeps W now (c.commit ttl now s₂) s' → Focus W c ttl now s true s'

section Focusing

variable {W : Set String} {early late : List ClaimSpec} {c : ClaimSpec} {ttl now : ℚ} {s s' u v : State}

theorem write_own (watched : c.spec.key ∈ W) (keeps : Keeps W now u v) :
    (c.buckets now u).foldl (PlannedBucket.write ttl now) v = c.refuse ttl now v := by
  cases c with
  | tokenBucket spec mark =>
    simp only [ClaimSpec.buckets, List.foldl_cons, List.foldl_nil, PlannedBucket.write, ClaimSpec.refuse]
    have here : spec.key ∈ W := watched
    rw [keeps.refill here]
  | concurrency spec => rfl

/-- A refused claim as the keys of one budget see it: its check, others' writes, its own, and others' again. -/
theorem refused_own (ttl now : ℚ) (s : State) (watched : c.spec.key ∈ W)
    (homes : ∀ other ∈ early ++ late, ∀ k ∈ other.spec.home, k ∉ W) :
    ∃ s₂, Keeps W now (c.check now (checked now early s)) s₂ ∧ Keeps W now (c.refuse ttl now s₂)
      ((plannedBuckets now (early ++ c :: late) s).foldl (PlannedBucket.write ttl now) (checked now (early ++ c :: late) s)) := by
  have homesEarly := (List.forall_mem_append.mp homes).1
  have homesLate := (List.forall_mem_append.mp homes).2
  have reach : checked now (early ++ c :: late) s = checked now late (c.check now (checked now early s)) := by
    rw [checked_append, checked_cons]
  have before : Keeps W now (c.check now (checked now early s))
      ((plannedBuckets now early s).foldl (PlannedBucket.write ttl now) (checked now (early ++ c :: late) s)) := by
    rw [reach]
    exact (checked_keeps homesLate _).trans (written_keeps ttl homesEarly s _)
  refine ⟨_, before, ?_⟩
  rw [plannedBuckets_append, plannedBuckets, List.foldl_append, List.foldl_append, write_own watched before]
  exact written_keeps ttl homesLate _ _

theorem Attempt.focus {admitted : Bool} (attempt : Attempt (early ++ c :: late) ttl now s admitted s')
    (normal : ∀ other ∈ early ++ c :: late, other.Normal) (watched : c.spec.key ∈ W)
    (avoid : ∀ other ∈ early ++ late, ∀ k ∈ other.spec.footprint, k ∉ W) : Focus W c ttl now s admitted s' := by
  have homes : ∀ other ∈ early ++ late, ∀ k ∈ other.spec.home, k ∉ W :=
    fun other member k home => avoid other member k (other.spec.home_subset home)
  have avoidEarly := (List.forall_mem_append.mp avoid).1
  have avoidLate := (List.forall_mem_append.mp avoid).2
  have homesEarly := (List.forall_mem_append.mp homes).1
  have homesLate := (List.forall_mem_append.mp homes).2
  have normalEarly := (List.forall_mem_append.mp normal).1
  have normalLate := (List.forall_mem_cons.mp (List.forall_mem_append.mp normal).2).2
  have first : Keeps W now s (checked now early s) := checked_keeps homesEarly s
  have reach : checked now (early ++ c :: late) s = checked now late (c.check now (checked now early s)) := by
    rw [checked_append, checked_cons]
  have drawn : plannedBuckets now (early ++ c :: late) s = plannedBuckets now early s ++
      (c.buckets now (c.check now (checked now early s)) ++
        plannedBuckets now late (c.check now (checked now early s))) := by
    rw [plannedBuckets_append, plannedBuckets]
  have rest : Keeps W now (c.check now (checked now early s)) (checked now (early ++ c :: late) s) := by
    rw [reach]
    exact checked_keeps homesLate _
  cases attempt with
  | @stopped reached stop beyond split usable =>
    rcases List.append_eq_append_iff.mp split with ⟨mid, rfl, tail⟩ | ⟨mid, rfl, tail⟩
    · cases mid with
      | nil =>
        rw [List.append_nil]
        exact .skipped first
      | cons head mid =>
        obtain ⟨rfl, rfl⟩ := List.cons.inj tail
        refine .planned (usable c (by simp)) first ?_
        rw [checked_append, checked_cons]
        exact checked_keeps (List.forall_mem_append.mp homesLate).1 _
    · exact .skipped (checked_keeps (List.forall_mem_append.mp homesEarly).1 s)
  | refused usable fit =>
    obtain ⟨s₂, before, after⟩ := refused_own ttl now s watched homes
    exact .refused (usable c (by simp)) first before after
  | admitted usable fit =>
    have fits : c.fits now (c.check now (checked now early s)) = true := by
      rw [allFit_append, allFit, Bool.and_eq_true, Bool.and_eq_true] at fit
      exact fit.2.1
    rw [drawn, List.flatMap_append, List.flatMap_cons, List.foldl_append, List.foldl_append, List.foldl_append,
      List.foldl_append]
    have before : Keeps W now (c.check now (checked now early s)) _ :=
      rest.trans (spent_keeps ttl normalEarly avoidEarly s _)
    cases c with
    | tokenBucket spec mark =>
      refine .admitted (usable _ (by simp)) first fits before ?_
      simp only [ClaimSpec.buckets, ClaimSpec.slots, List.foldl_cons, List.foldl_nil, PlannedBucket.spend,
        ClaimSpec.commit]
      have here : spec.key ∈ W := watched
      rw [before.refill here]
      exact ((spent_keeps ttl normalLate avoidLate _ _).trans (taken_keeps ttl homesEarly _)).trans
        (taken_keeps ttl homesLate _)
    | concurrency spec =>
      have spent := before.trans (spent_keeps ttl normalLate avoidLate
        ((ClaimSpec.concurrency spec).check now (checked now early s)) _)
      exact .admitted (usable _ (by simp)) first fits (spent.trans (taken_keeps ttl homesEarly _))
        (taken_keeps ttl homesLate _)

end Focusing

end Dianemo
