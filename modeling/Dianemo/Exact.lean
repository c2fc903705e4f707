import Dianemo.Purse

namespace Dianemo

open JsNumber Meter

/-- How far below zero a settlement may push the balance. -/
def debtOf : JsNumber → ℚ
  | .fin d => if 0 < d then d else 0
  | _ => 0

/-- What a settlement reports in exact numbers: whether it found its mark, what it took and could not take. -/
def Book.correctionOf (b : Book) (r : Rate) (id : String) (actual debt now : ℚ) : Option Correction :=
  (b.notes id).map fun n => b.purse.elim ⟨0, 0, 0⟩ fun p => correction r p (p.level.refill r now) n actual debt

namespace Book

variable (b : Book) (r : Rate) (now : ℚ)

theorem refill_account : b.account.refill r.config now = (b.level r now).state := by
  unfold Account.refill level account
  cases b.purse with
  | none =>
    have full : BucketState.mk r.config.maxTokens (fin now) 0 0 = (Level.full r now).state := by
      simp only [zero_eq]
      rfl
    simp only [Option.map_none, Option.elim_none]
    rw [full, Level.refill_state, Level.full_refill]
  | some p => exact p.level.refill_state r now

theorem generation_account : b.account.generation = fin b.generation := by
  unfold Account.generation generation account
  cases b.purse with
  | none => exact zero_eq
  | some p => rfl

theorem forgiven_account : b.account.forgiven = fin b.forgiven := by
  unfold Account.forgiven forgiven account
  cases b.purse with
  | none => exact zero_eq
  | some p => rfl

theorem epoch_account : b.account.epoch = b.epoch := by
  unfold Account.epoch epoch account
  cases b.purse <;> rfl

theorem write_account (l : Level) (ttl : ℚ) : b.account.write l.state ttl now = (b.write l ttl now).account := by
  simp only [Account.write, generation_account, forgiven_account, epoch_account]
  rfl

theorem mark_account (claim : String × ℚ) (cost : ℚ) (l : Level) (epoch : ℕ) :
    b.account.mark claim (fin cost) l.state epoch now = (b.mark claim cost l epoch now).account := by
  simp only [Account.mark, generation_account, forgiven_account, epoch_account]
  simp only [mark, account, Account.mk.injEq, Option.map_map]
  refine ⟨rfl, ?_, trivial⟩
  funext id
  by_cases same : id = claim.1
  · subst same
    simp only [Function.update_self]
    rfl
  · simp only [Function.update_of_ne same]

theorem spend_account (l : Level) (cost ttl : ℚ) (claim : Option (String × ℚ)) (epoch : ℕ) :
    b.account.spend l.state (fin cost) ttl claim epoch now = (b.spend l cost ttl claim epoch now).account := by
  have spent : ({ l.state with tokens := l.state.tokens - fin cost } : BucketState) = (l.spend cost).state := by
    simp [Level.state, Level.spend]
  unfold Account.spend spend
  rw [spent, write_account]
  cases claim with
  | none => rfl
  | some claim => exact mark_account _ now claim cost l epoch

theorem overwrite_account (tokens ttl : ℚ) :
    b.account.overwrite (fin tokens) ttl now = (b.overwrite tokens ttl now).account := by
  simp only [Account.overwrite, generation_account, forgiven_account, epoch_account, one_eq, add_fin, orElse_fin]
  unfold overwrite account
  cases b.purse with
  | none =>
    simp only [Option.map_none, Option.elim_none, zero_eq]
    rfl
  | some p => rfl

theorem credit_account (cost maxTokens : ℚ) :
    (Action.credit (fin cost) (fin maxTokens)).apply now b.account = (b.credit cost maxTokens).account := by
  simp only [Action.apply, credit, account, Account.mk.injEq, and_true, Option.map_map]
  congr 1
  funext p
  simp [Purse.bucket, Level.state]

theorem asOf_account (t : ℚ) : b.account.asOf t = (b.asOf t).account := by
  simp only [Account.asOf, asOf, account, Account.mk.injEq, and_true, Option.filter_map]
  exact ⟨rfl, rfl⟩

end Book

theorem epochs_match {epoch : Option ℕ} {n : ℕ} :
    ((epoch.map fun k : ℕ => Field.num (fin k)).getD (.text "") ≠ Field.num (fin n)) ↔ epoch ≠ some n := by
  cases epoch with
  | none => simp
  | some k => simp

/-- The settlement arithmetic in exact numbers. -/
theorem settleAmount_fin {r : Rate} {p : Purse} {l : Level} {n : Note} {actual : ℚ} {input : SettleInput}
    (tokens : input.tokens = fin l.gauge.level) (maxTokens : input.maxTokens = fin r.maxTokens)
    (is_actual : input.actual = fin actual) (claimed : input.claimed = fin n.claimed)
    (overflowNow : input.overflowNow = fin l.gauge.spill) (overflowAtClaim : input.overflowAtClaim = fin n.overflow)
    (forgivenNow : input.forgivenNow = fin p.forgiven) (forgivenAtClaim : input.forgivenAtClaim = fin n.forgiven)
    (fillsNow : input.fillsNow = fin l.fills) (fillsAtClaim : input.fillsAtClaim = fin n.fills)
    (generationNow : input.generationNow = fin p.generation)
    (generationAtClaim : input.generationAtClaim = fin n.generation)
    (epochNow : input.epochNow = (p.epoch.map fun k : ℕ => Field.num (fin k)).getD (.text ""))
    (epochAtClaim : input.epochAtClaim = .num (fin n.epoch)) :
    settleAmount input =
      ⟨(correction r p l n actual (debtOf input.maxDebt)).applied,
        (correction r p l n actual (debtOf input.maxDebt)).unapplied,
        (correction r p l n actual (debtOf input.maxDebt)).forgiven⟩ := by
  have gone : input.bucketGone = decide (n.Gone p l) := by
    simp only [SettleInput.bucketGone, epochNow, epochAtClaim, generationNow, generationAtClaim, overflowNow,
      overflowAtClaim, fillsNow, fillsAtClaim, fin_lt_fin]
    rw [Bool.eq_iff_iff, decide_eq_true_iff]
    simp only [Bool.or_eq_true, decide_eq_true_eq, epochs_match, Note.Gone]
    simp [or_assoc]
  have debt : (if input.maxDebt.isFinite ∧ 0 < input.maxDebt then input.maxDebt else 0) =
      fin (debtOf input.maxDebt) := by
    cases limit : input.maxDebt with
    | fin d => simp [debtOf, apply_ite fin]
    | posInf => simp [debtOf, isFinite]
    | negInf => simp [debtOf, isFinite]
    | nan => simp [debtOf, isFinite]
  simp only [settleAmount, gone, debt]
  simp only [correction, tokens, maxTokens, is_actual, claimed, overflowNow, overflowAtClaim, forgivenNow,
    forgivenAtClaim, fillsNow, fillsAtClaim, zero_eq, sub_fin, fin_lt_fin, max_fin, min_fin, add_fin, neg_fin,
    fin.injEq, decide_eq_true_eq]
  split_ifs <;> simp

theorem Book.applySettlement_account (b : Book) {r : Rate} {spec : SettleSpec} {actual : ℚ}
    (config : spec.config = r.config) (is_actual : spec.actual = fin actual) (n : Note) (now : ℚ) :
    b.account.applySettlement spec n.mark now =
      (match b.purse with
        | none => ⟨spec.key, true, 0, 0⟩
        | some p => ⟨spec.key, true, (correction r p (p.level.refill r now) n actual (debtOf spec.maxDebt)).applied,
            (correction r p (p.level.refill r now) n actual (debtOf spec.maxDebt)).unapplied⟩,
        (b.correct r n actual (debtOf spec.maxDebt) now).account) := by
  have refilled := b.refill_account r now
  have generation := b.generation_account
  have forgiven := b.forgiven_account
  have epoch := b.epoch_account
  unfold Account.applySettlement Book.correct
  unfold Book.level at refilled
  unfold Book.generation at generation
  unfold Book.forgiven at forgiven
  unfold Book.epoch at epoch
  have at_ : b.account.bucket = b.purse.map Purse.bucket := rfl
  rw [at_]
  cases found : b.purse with
  | none =>
    rw [Option.map_none]
  | some p =>
    rw [found] at refilled generation forgiven epoch
    simp only [Option.elim_some, Option.bind_some] at refilled generation forgiven epoch
    have outcome : b.account.outcome spec n.mark now =
        ⟨(correction r p (p.level.refill r now) n actual (debtOf spec.maxDebt)).applied,
          (correction r p (p.level.refill r now) n actual (debtOf spec.maxDebt)).unapplied,
          (correction r p (p.level.refill r now) n actual (debtOf spec.maxDebt)).forgiven⟩ := by
      unfold Account.outcome
      rw [config, refilled]
      exact settleAmount_fin rfl (congrArg TokenBucketConfig.maxTokens config) is_actual rfl rfl rfl forgiven rfl rfl
        rfl generation rfl (by simp only [Account.settleInput, epoch]) rfl
    simp only [Option.map_some, outcome, config, refilled, orElse_fin, Prod.mk.injEq, true_and]
    simp [Book.account, Purse.bucket, Level.state, Level.spend]

theorem Book.settle_account (b : Book) {r : Rate} {spec : SettleSpec} {actual : ℚ} (config : spec.config = r.config)
    (is_actual : spec.actual = fin actual) (nonneg : 0 ≤ actual) (now : ℚ) :
    b.account.settle spec now =
      ((b.correctionOf r spec.markId actual (debtOf spec.maxDebt) now).elim ⟨spec.key, false, 0, 0⟩
        fun c => ⟨spec.key, true, c.applied, c.unapplied⟩,
        (b.settle r spec.markId actual (debtOf spec.maxDebt) now).account) := by
  have acts : Account.settleable spec = true := by
    rw [Account.settleable_iff, is_actual, config, zero_eq, fin_lt_fin, not_lt]
    exact ⟨rfl, nonneg, r.usable le_rfl⟩
  unfold Account.settle Book.settle Book.correctionOf
  have marks : b.account.marks spec.markId = (b.notes spec.markId).map Note.mark := rfl
  rw [marks]
  cases b.notes spec.markId with
  | none => rfl
  | some n =>
    have consumed : ({ b.account with marks := Function.update b.account.marks spec.markId none } : Account) =
        Book.account { b with notes := Function.update b.notes spec.markId none } := by
      simp only [Book.account, Account.mk.injEq, true_and, and_true]
      funext id
      by_cases same : id = spec.markId
      · subst same
        simp only [Function.update_self, Option.map_none]
      · simp only [Function.update_of_ne same]
    simp only [Option.map_some, if_pos acts]
    rw [consumed, Book.applySettlement_account _ config is_actual n now]
    cases b.purse with
    | none => simp
    | some p => rfl

/-- The action is made under the rate `r`. -/
def Action.Uses (r : Rate) : Action → Prop
  | .touch config _ => config = r.config
  | .spend config _ _ _ _ => config = r.config
  | .credit _ maxTokens => maxTokens = fin r.maxTokens
  | .empty config => config = r.config
  | .reset maxTokens => maxTokens = fin r.maxTokens
  | .settle spec => spec.config = r.config
  | .prolong _ _ => True
  | .drop _ _ => True

/-- What an action under the rate `r` does, in exact numbers. -/
def Book.act (r : Rate) (now : ℚ) (b : Book) : Action → Book
  | .touch _ ttl => b.write (b.level r now) (bucketTtl ttl r.config).toRat now
  | .spend _ cost ttl mark epoch =>
    b.spend (b.level r now) cost.toRat (bucketTtl ttl r.config).toRat mark epoch now
  | .credit cost _ => b.credit cost.toRat r.maxTokens
  | .empty _ => b.overwrite (Min.min (b.purse.elim 0 fun p => p.level.gauge.level) 0) (emptiedTtl r.config) now
  | .reset _ => b.overwrite r.maxTokens 86400 now
  | .settle spec =>
    if Account.settleable spec then b.settle r spec.markId spec.actual.toRat (debtOf spec.maxDebt) now else b
  | .prolong id ttl =>
    let prolonged := (b.notes id).map fun n => { n with expiresAt := now + ttl * 1000 }
    { b with notes := Function.update b.notes id prolonged }
  | .drop bucket ids =>
    { b with
      purse := if bucket then none else b.purse
      notes := fun id => if ids id then none else b.notes id }

theorem usableCost_iff {cost : JsNumber} : usableCost cost = true ↔ ∃ c : ℚ, cost = fin c ∧ 0 ≤ c := by
  rw [usableCost, Bool.and_eq_true, decide_eq_true_iff, isFinite_iff]
  constructor
  · rintro ⟨⟨c, rfl⟩, nonneg⟩
    rw [zero_eq, fin_le_fin] at nonneg
    exact ⟨c, rfl, nonneg⟩
  · rintro ⟨c, rfl, nonneg⟩
    rw [zero_eq, fin_le_fin]
    exact ⟨⟨c, rfl⟩, nonneg⟩

/-- What an admitted spend has checked, in exact numbers. -/
theorem spend_fits {b : Book} {r : Rate} {now : ℚ} {cost : JsNumber} {ttl : ℚ}
    {mark : Option (String × ℚ)} {epoch : ℕ}
    (fits : (Action.spend r.config cost ttl mark epoch).Fits now b.account) :
    cost = fin cost.toRat ∧ 0 ≤ cost.toRat ∧
      cost.toRat - Min.min r.maxTokens cost.toRat * balanceTolerance ≤ (b.level r now).gauge.level := by
  obtain ⟨-, usable, covers, -, -⟩ := fits
  obtain ⟨-, -, amount, -, -, -, rfl, nonneg, -⟩ := unusableBudget_none.mp usable
  refine ⟨rfl, nonneg, ?_⟩
  rw [b.refill_account r now, coversCost, decide_eq_true_iff] at covers
  have ceiling : r.config.maxTokens = fin r.maxTokens := rfl
  have tokens : (b.level r now).state.tokens = fin (b.level r now).gauge.level := rfl
  rw [ceiling, tokens, min_fin, mul_fin, sub_fin, fin_le_fin] at covers
  exact covers

theorem Level.spend_bounds {r : Rate} {l : Level} {cost : ℚ} (nonneg : 0 ≤ cost)
    (covers : cost - Min.min r.maxTokens cost * balanceTolerance ≤ l.gauge.level) :
    -(balanceTolerance * r.maxTokens) ≤ (l.spend cost).gauge.level ∧
      (l.spend cost).gauge.level ≤ l.gauge.level := by
  have level : (l.spend cost).gauge.level = l.gauge.level - cost := rfl
  have scaled : Min.min r.maxTokens cost * balanceTolerance ≤ balanceTolerance * r.maxTokens := by
    rw [mul_comm balanceTolerance]
    exact mul_le_mul_of_nonneg_right (min_le_left _ _) balanceTolerance_pos.le
  rw [level]
  constructor
  · linarith
  · linarith

theorem Book.act_account {b : Book} {r : Rate} {now : ℚ} {action : Action} (uses : action.Uses r)
    (fits : action.Fits now b.account) : action.apply now b.account = (b.act r now action).account := by
  cases action with
  | touch config ttl =>
    cases uses
    simp only [Action.apply, b.refill_account r now]
    exact b.write_account now _ _
  | spend config cost ttl mark epoch =>
    cases uses
    obtain ⟨finite, -, -⟩ := spend_fits fits
    simp only [Action.apply, b.refill_account r now]
    rw [finite]
    exact b.spend_account now _ _ _ mark epoch
  | credit cost maxTokens =>
    cases uses
    obtain ⟨c, rfl, -⟩ := usableCost_iff.mp fits
    exact b.credit_account now c r.maxTokens
  | empty config =>
    cases uses
    have balance : (b.account.bucket.elim 0 fun b => b.state.tokens.orElse 0) =
        fin (b.purse.elim 0 fun p => p.level.gauge.level) := by
      unfold Book.account
      cases b.purse with
      | none => exact zero_eq
      | some p => rfl
    simp only [Action.apply]
    rw [balance, zero_eq, min_fin]
    exact b.overwrite_account now _ _
  | reset maxTokens =>
    cases uses
    exact b.overwrite_account now _ _
  | settle spec =>
    by_cases acts : Account.settleable spec = true
    · obtain ⟨finite, nonneg, -⟩ := Account.settleable_iff.mp acts
      have is_actual := (fin_toRat finite).symm
      rw [is_actual, zero_eq, fin_lt_fin, not_lt] at nonneg
      simp only [Action.apply, Book.act, if_pos acts, b.settle_account uses is_actual nonneg now]
    · simp only [Action.apply, Book.act, if_neg acts, Account.settle]
      cases b.account.marks spec.markId <;> rfl
  | prolong id ttl =>
    simp only [Action.apply, Book.act, Book.account, Account.mk.injEq, true_and, and_true, Option.map_map]
    funext other
    by_cases same : other = id
    · subst same
      simp only [Function.update_self, Option.map_map]
      rfl
    · simp only [Function.update_of_ne same]
  | drop bucket ids =>
    simp only [Action.apply, Book.act, Book.account, Account.mk.injEq, and_true]
    constructor
    · cases bucket <;> rfl
    · funext id
      cases ids id <;> rfl

/-- A property of exact accounts that every action keeps, every trail keeps. -/
theorem Trail.book {r : Rate} {now : ℚ} {I : Book → Prop} {P : Action → Prop}
    (step : ∀ b action, action.Uses r → P action → action.Fits now b.account → I b →
      I (b.act r now action)) {b : Book}
    {actions : List Action} {a : Account} (trail : Trail now b.account actions a)
    (uses : ∀ action ∈ actions, action.Uses r) (proper : ∀ action ∈ actions, P action) (start : I b) :
    ∃ b' : Book, a = b'.account ∧ I b' := by
  generalize from_ : b.account = a₀ at trail
  induction trail generalizing b with
  | done => exact ⟨b, from_.symm, start⟩
  | act fits _ ih =>
    subst from_
    rw [List.forall_mem_cons] at uses proper
    exact ih uses.2 proper.2 (step b _ uses.1 proper.1 fits start) (Book.act_account uses.1 fits).symm

end Dianemo
