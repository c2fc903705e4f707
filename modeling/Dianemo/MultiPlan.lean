import Dianemo.Frames

namespace Dianemo

open JsNumber

def MultiLimitSpec.key : MultiLimitSpec → String
  | .tokenBucket spec => spec.key
  | .concurrency spec => spec.key

/-- The keys of the budget itself, whatever the claim's outcome. -/
def MultiLimitSpec.home : MultiLimitSpec → List String
  | .tokenBucket spec => [spec.key]
  | .concurrency spec => [spec.key, costsKey spec.key]

/-- Every key a claim on the budget may write. -/
def MultiLimitSpec.footprint : MultiLimitSpec → List String
  | .tokenBucket spec => spec.key :: (spec.mark.map fun mark => claimMarkKey spec.key mark.id).toList
  | .concurrency spec => [spec.key, costsKey spec.key]

theorem MultiLimitSpec.home_subset (spec : MultiLimitSpec) : spec.home ⊆ spec.footprint := by
  cases spec <;> simp [home, footprint]

namespace ClaimSpec

def spec : ClaimSpec → MultiLimitSpec
  | .tokenBucket spec _ => .tokenBucket spec
  | .concurrency spec => .concurrency spec

/-- The mark is the one `claimMark` makes of the spec's own. -/
def Normal : ClaimSpec → Prop
  | .tokenBucket spec mark => claimMark spec.mark = .ok mark
  | .concurrency _ => True

def unusable : ClaimSpec → Option String
  | .tokenBucket spec _ => unusableBudget spec.cost spec.config
  | .concurrency spec => unusableSlot spec.cost spec.config

/-- What the check phase writes for one budget. -/
def check (now : ℚ) (s : State) : ClaimSpec → State
  | .tokenBucket _ _ => s
  | .concurrency spec => reapConcurrency s spec.key (fin now - spec.config.requestTtl) now

/-- Whether a checked budget admits the claim. -/
def fits (now : ℚ) (s : State) : ClaimSpec → Bool
  | .tokenBucket spec _ => coversCost (refill s spec.key spec.config now).tokens spec.cost spec.config.maxTokens
  | .concurrency spec =>
    decide (¬ spec.config.maxConcurrency < concurrencyCost s spec.key spec.slotId now + spec.cost)

/-- One turn of the check phase on a checked budget. -/
def plan (now : ℚ) (s : State) (before : Plan) : ClaimSpec → Plan
  | .tokenBucket spec mark => planBucket s spec mark before now
  | .concurrency spec => planSlot s spec before now

def buckets (now : ℚ) (s : State) : ClaimSpec → List PlannedBucket
  | .tokenBucket spec mark => [⟨refill s spec.key spec.config now, spec.key, spec.cost, spec.config, mark⟩]
  | .concurrency _ => []

def slots : ClaimSpec → List PlannedSlot
  | .tokenBucket _ _ => []
  | .concurrency spec => [⟨spec.key, spec.slotId, spec.cost⟩]

variable {now : ℚ} {s : State} {before : Plan} {c : ClaimSpec}

theorem plan_error : (c.plan now s before).error = before.error := by
  cases c <;> simp only [plan, planBucket, planSlot, Plan.declineBucket, Plan.declineSlot] <;> split_ifs <;> rfl

theorem plan_acquired : (c.plan now s before).acquired = (before.acquired && c.fits now s) := by
  cases c with
  | tokenBucket spec mark =>
    simp only [plan, planBucket, Plan.declineBucket, fits]
    split_ifs with covered longer
    · simp [covered]
    · simp [covered]
    · simp [covered]
  | concurrency spec =>
    simp only [plan, planSlot, Plan.declineSlot, fits]
    split_ifs with full
    · simp [full]
    · simp [full]

theorem plan_buckets : (c.plan now s before).buckets = before.buckets ++ c.buckets now s := by
  cases c with
  | tokenBucket spec mark =>
    simp only [plan, planBucket, Plan.declineBucket, buckets]
    split_ifs <;> rfl
  | concurrency spec =>
    simp only [plan, planSlot, Plan.declineSlot, buckets, List.append_nil]
    split_ifs <;> rfl

theorem plan_slots (fit : c.fits now s = true) : (c.plan now s before).slots = before.slots ++ c.slots := by
  cases c with
  | tokenBucket spec mark =>
    simp only [fits] at fit
    simp [plan, planBucket, slots, fit]
  | concurrency spec =>
    simp only [fits, decide_eq_true_eq] at fit
    simp only [plan, planSlot, slots, if_neg fit]

end ClaimSpec

theorem planMultiLimit_cons (now : ℚ) (c : ClaimSpec) (rest : List ClaimSpec) (plan : Plan) (s : State) :
    planMultiLimit now (c :: rest) plan s =
      match c.unusable with
      | some error => ({ plan with acquired := false, error := some error, waitTime := none, blockedBy := none }, s)
      | none => planMultiLimit now rest (c.plan now (c.check now s) plan) (c.check now s) := by
  cases c <;> rfl

/-- The ledgers of `claims` reaped in turn. -/
def checked (now : ℚ) (claims : List ClaimSpec) (s : State) : State :=
  claims.foldl (fun s c => c.check now s) s

/-- The buckets of `claims`, each as it stands at its turn of the check phase. -/
def plannedBuckets (now : ℚ) : List ClaimSpec → State → List PlannedBucket
  | [], _ => []
  | c :: rest, s => c.buckets now (c.check now s) ++ plannedBuckets now rest (c.check now s)

def allFit (now : ℚ) : List ClaimSpec → State → Bool
  | [], _ => true
  | c :: rest, s => c.fits now (c.check now s) && allFit now rest (c.check now s)

/-- The check phase in closed form: it stops at the first unusable budget, and
otherwise has drawn every bucket and reaped every ledger. -/
theorem planMultiLimit_cases (now : ℚ) (claims : List ClaimSpec) (plan : Plan) (clean : plan.error = none)
    (s : State) :
    (∃ early c late, claims = early ++ c :: late ∧ (∀ before ∈ early, before.unusable = none) ∧
        c.unusable.isSome = true ∧ (planMultiLimit now claims plan s).1.error.isSome = true ∧
        (planMultiLimit now claims plan s).2 = checked now early s) ∨
      ((∀ c ∈ claims, c.unusable = none) ∧ (planMultiLimit now claims plan s).1.error = none ∧
        (planMultiLimit now claims plan s).2 = checked now claims s ∧
        (planMultiLimit now claims plan s).1.acquired = (plan.acquired && allFit now claims s) ∧
        (planMultiLimit now claims plan s).1.buckets = plan.buckets ++ plannedBuckets now claims s ∧
        (allFit now claims s = true →
          (planMultiLimit now claims plan s).1.slots = plan.slots ++ claims.flatMap ClaimSpec.slots)) := by
  induction claims generalizing plan s with
  | nil =>
    right
    simp [planMultiLimit, clean, checked, allFit, plannedBuckets]
  | cons c rest ih =>
    rw [planMultiLimit_cons]
    cases unusable : c.unusable with
    | some error => exact Or.inl ⟨[], c, rest, rfl, by simp, by simp [unusable], rfl, rfl⟩
    | none =>
      rcases ih (c.plan now (c.check now s) plan) (ClaimSpec.plan_error.trans clean)
        (c.check now s) with stopped | drawn
      · obtain ⟨early, c', late, rfl, usable, stops, error, reached⟩ := stopped
        refine Or.inl ⟨c :: early, c', late, rfl, ?_, stops, error, reached⟩
        intro before member
        rcases List.mem_cons.mp member with rfl | later
        · exact unusable
        · exact usable before later
      · obtain ⟨usable, error, reached, acquired, buckets, slots⟩ := drawn
        refine Or.inr ⟨?_, error, reached, ?_, ?_, ?_⟩
        · intro other member
          rcases List.mem_cons.mp member with rfl | later
          · exact unusable
          · exact usable other later
        · rw [acquired, ClaimSpec.plan_acquired, allFit, Bool.and_assoc]
        · rw [buckets, ClaimSpec.plan_buckets, plannedBuckets, List.append_assoc]
        · intro fit
          rw [allFit, Bool.and_eq_true] at fit
          rw [slots fit.2, ClaimSpec.plan_slots fit.1, List.flatMap_cons, List.append_assoc]

theorem checked_append (now : ℚ) (early late : List ClaimSpec) (s : State) :
    checked now (early ++ late) s = checked now late (checked now early s) := by
  simp only [checked, List.foldl_append]

theorem checked_cons (now : ℚ) (c : ClaimSpec) (rest : List ClaimSpec) (s : State) :
    checked now (c :: rest) s = checked now rest (c.check now s) := rfl

theorem plannedBuckets_append (now : ℚ) (early late : List ClaimSpec) (s : State) :
    plannedBuckets now (early ++ late) s =
      plannedBuckets now early s ++ plannedBuckets now late (checked now early s) := by
  induction early generalizing s with
  | nil => rfl
  | cons c rest ih => simp only [List.cons_append, plannedBuckets, ih, List.append_assoc, checked, List.foldl_cons]

theorem allFit_append (now : ℚ) (early late : List ClaimSpec) (s : State) :
    allFit now (early ++ late) s = (allFit now early s && allFit now late (checked now early s)) := by
  induction early generalizing s with
  | nil => rfl
  | cons c rest ih => simp only [List.cons_append, allFit, ih, Bool.and_assoc, checked, List.foldl_cons]

theorem mem_plannedBuckets {now : ℚ} {claims : List ClaimSpec} {s : State} {bucket : PlannedBucket}
    (member : bucket ∈ plannedBuckets now claims s) :
    ∃ spec, ClaimSpec.tokenBucket spec bucket.mark ∈ claims ∧ bucket.key = spec.key ∧ bucket.cost = spec.cost ∧
      bucket.config = spec.config := by
  induction claims generalizing s with
  | nil => cases member
  | cons c rest ih =>
    rcases List.mem_append.mp member with here | later
    · cases c with
      | tokenBucket spec mark =>
        rw [ClaimSpec.buckets, List.mem_singleton] at here
        subst here
        exact ⟨spec, List.mem_cons_self, rfl, rfl, rfl⟩
      | concurrency spec => cases here
    · obtain ⟨spec, found, same⟩ := ih later
      exact ⟨spec, List.mem_cons_of_mem _ found, same⟩

theorem mem_slots {claims : List ClaimSpec} {slot : PlannedSlot} (member : slot ∈ claims.flatMap ClaimSpec.slots) :
    ∃ spec, ClaimSpec.concurrency spec ∈ claims ∧ slot = ⟨spec.key, spec.slotId, spec.cost⟩ := by
  obtain ⟨c, found, inside⟩ := List.mem_flatMap.mp member
  cases c with
  | tokenBucket spec mark => cases inside
  | concurrency spec =>
    rw [ClaimSpec.slots, List.mem_singleton] at inside
    exact ⟨spec, found, inside⟩

/-- A loop whose every turn succeeds. -/
theorem Op.forEach_run {α : Type} {f : α → Op Unit} {g : State → α → State} (xs : List α)
    (runs : ∀ x ∈ xs, ∀ s, (f x).run s = (.ok (), g s x)) (s : State) :
    (Op.forEach xs f).run s = (.ok (), xs.foldl g s) := by
  induction xs generalizing s with
  | nil => rfl
  | cons x rest ih =>
    rw [Op.forEach, Op.run_bind_ok (runs x List.mem_cons_self s)]
    exact ih (fun y member => runs y (List.mem_cons_of_mem x member)) (g s x)

theorem claimMarks_normal {specs : List MultiLimitSpec} {claims : List ClaimSpec}
    (run : claimMarks specs = .ok claims) : claims.map ClaimSpec.spec = specs ∧ ∀ c ∈ claims, c.Normal := by
  induction specs generalizing claims with
  | nil =>
    cases run
    simp
  | cons spec rest ih =>
    cases spec with
    | tokenBucket spec =>
      simp only [claimMarks, bind, Except.bind] at run
      split at run
      · cases run
      · rename_i mark marked
        split at run
        · cases run
        · rename_i others tail
          cases run
          obtain ⟨same, normal⟩ := ih tail
          refine ⟨by rw [List.map_cons, same]; rfl, ?_⟩
          intro c member
          rcases List.mem_cons.mp member with rfl | later
          · exact marked
          · exact normal c later
    | concurrency spec =>
      simp only [claimMarks, bind, Except.bind] at run
      split at run
      · cases run
      · rename_i others tail
        cases run
        obtain ⟨same, normal⟩ := ih tail
        refine ⟨by rw [List.map_cons, same]; rfl, ?_⟩
        intro c member
        rcases List.mem_cons.mp member with rfl | later
        · trivial
        · exact normal c later

end Dianemo
