import Dianemo.Soundness

namespace Dianemo

open JsNumber Meter

/-- A balance that is not in debt, or that refill brings back to a full bucket by `deadline`. -/
def Outlasts (r : Rate) (balance clock deadline : ℚ) : Prop :=
  0 ≤ balance ∨
    r.maxTokens * (1 - balanceTolerance) ≤ balance + r.tokensToAdd * ⌊(deadline - clock) / r.interval⌋

instance (r : Rate) (balance clock deadline : ℚ) : Decidable (Outlasts r balance clock deadline) :=
  inferInstanceAs (Decidable (_ ∨ _))

/-- The lowest balance a settlement may leave of `balance`. -/
def settledFloor (key : String) (now : ℚ) (s : State) (balance : ℚ) (spec : SettleSpec) : ℚ :=
  match s.hash (claimMarkKey key spec.markId) now with
  | none => balance
  | some mark => Min.min balance (Max.max (-debtOf spec.maxDebt)
      (balance - (spec.actual.toRat - (parseFiniteStored (mark.lookup "claimed") 0).toRat)))

/-- The settlements of a call that find their mark there: of several under one mark, the first. -/
def markedSettlements (key : String) (now : ℚ) (s : State) : List String → List SettleSpec → List SettleSpec
  | _, [] => []
  | consumed, spec :: rest =>
    if spec.key = key ∧ Account.settleable spec = true ∧ spec.markId ∉ consumed ∧
        (s.hash (claimMarkKey key spec.markId) now).isSome = true then
      spec :: markedSettlements key now s (spec.markId :: consumed) rest
    else markedSettlements key now s consumed rest

/-- Whatever debt the call finds or may leave, the lifetime it gives the key outlasts it. -/
def BucketCall.Repays (r : Rate) (key : String) (now : ℚ) (s : State) : BucketCall → Prop
  | .settleTokens specs =>
    -- without a mark nothing is written
    markedSettlements key now s [] specs = [] ∨
      Outlasts r ((markedSettlements key now s [] specs).foldl (settledFloor key now s) (refill s key r.config now).tokens.toRat)
        (refill s key r.config now).lastUpdate.toRat (now + (bucketTtl 86400 r.config).toRat * 1000)
  | .emptyTokenBucket config =>
    Outlasts r (Min.min (parseFiniteStored (s.hget key "tokens" now) 0).toRat 0) now
      (now + emptiedTtl config * 1000)
  | call => ∀ d ∈ call.draws key, ∀ ttl, normalizeStateTtlSeconds d.ttl = .ok ttl →
      Outlasts r (refill s key r.config now).tokens.toRat (refill s key r.config now).lastUpdate.toRat
        (now + (bucketTtl ttl r.config).toRat * 1000)

/-- Runs of every operation on the bucket, all under `r`. -/
def ratedRuns (r : Rate) (key : String) : Timed.Machine ℚ State BucketCall :=
  bucketRuns key fun now call s => call.Under r key ∧ call.Apart key Set.univ now s ∧ (∀ keys, call ≠ .del keys) ∧
    ∀ spec ∈ call.settles key, ∃ debt : ℚ, spec.maxDebt = fin debt ∧ 0 ≤ debt

/-- Those whose every step leaves no debt that outlives the key. -/
def repaidRuns (r : Rate) (key : String) : Timed.Machine ℚ State BucketCall :=
  bucketRuns key fun now call s => call.Repays r key now s ∧ call.Under r key ∧ call.Apart key Set.univ now s ∧
    ∀ keys, call ≠ .del keys

/-- At the moment the key lapses its stored bucket would have refilled. -/
def ExpiresFull (r : Rate) (key : String) (now : ℚ) (s : State) : Prop :=
  ∀ e expiresAt, s.live key now = some e → e.expiresAt = some expiresAt →
    fin (r.maxTokens * (1 - balanceTolerance)) ≤
      ((storedBucket s key r.config now).refill r.config expiresAt).tokens

/-- The refill from empty fits the lifetimes a backend can store. -/
def Rate.Storable (r : Rate) : Prop :=
  ((⌈(⌈r.maxTokens / r.tokensToAdd⌉ : ℚ) * r.interval / 1000⌉ : ℤ) : ℚ) ≤ redisMaxTtlSeconds

section Lifetimes

variable {r : Rate} {now : ℚ}

theorem refill_le_bucketTtl (storable : r.Storable) (ttl : ℚ) :
    (⌈r.maxTokens / r.tokensToAdd⌉ : ℚ) * r.interval ≤ (bucketTtl ttl r.config).toRat * 1000 := by
  have thousand : (1000 : ℚ) ≠ 0 := by norm_num
  have sized : (⌈r.maxTokens / r.tokensToAdd⌉ : ℚ) * r.interval / 1000 ≤
      ((⌈(⌈r.maxTokens / r.tokensToAdd⌉ : ℚ) * r.interval / 1000⌉ : ℤ) : ℚ) := Int.le_ceil _
  have lifetime : ((⌈(⌈r.maxTokens / r.tokensToAdd⌉ : ℚ) * r.interval / 1000⌉ : ℤ) : ℚ) ≤
      (bucketTtl ttl r.config).toRat := by
    simp only [bucketTtl, Rate.config, div_fin r.tokensToAdd_pos.ne', ceil_fin, mul_fin, ofNat_eq, div_fin thousand,
      fin_lt_fin, min_fin]
    split
    · rename_i short
      exact not_lt.mp short
    · exact le_min le_rfl storable
  linarith

theorem periods_eq_floor (period : 0 < r.interval) {clock deadline : ℚ} (order : clock ≤ deadline) :
    (r.rule.periods clock deadline : ℚ) = ⌊(deadline - clock) / r.interval⌋ := by
  have periods : r.rule.periods clock deadline = ⌊(deadline - clock) / r.interval⌋₊ := if_pos period
  have nonneg : 0 ≤ (deadline - clock) / r.interval := div_nonneg (sub_nonneg.mpr order) period.le
  rw [periods]
  exact_mod_cast Int.natCast_floor_eq_floor nonneg

/-- A long enough lifetime: at least a refill from empty. -/
def Rate.Spans (r : Rate) (now deadline : ℚ) : Prop :=
  now ≤ deadline ∧ (⌈r.maxTokens / r.tokensToAdd⌉ : ℚ) * r.interval ≤ deadline - now

theorem spans_bucketTtl (period : 0 < r.interval) (storable : r.Storable) (ttl now : ℚ) :
    r.Spans now (now + (bucketTtl ttl r.config).toRat * 1000) := by
  have long := refill_le_bucketTtl storable ttl
  have positive : 0 < r.maxTokens / r.tokensToAdd := div_pos r.maxTokens_pos r.tokensToAdd_pos
  have count : (0 : ℚ) ≤ ⌈r.maxTokens / r.tokensToAdd⌉ := by exact_mod_cast (Int.ceil_pos.mpr positive).le
  have spent := mul_nonneg count period.le
  constructor <;> linarith

/-- A balance at zero or a rounding below it refills within the lifetime it is given. -/
theorem refills_by {l : Level} {deadline : ℚ} (period : 0 < r.interval) (clock : l.gauge.clock ≤ now)
    (floor : -(balanceTolerance * r.maxTokens) ≤ l.gauge.level) (spans : r.Spans now deadline) :
    r.maxTokens * (1 - balanceTolerance) ≤ (l.refill r deadline).gauge.level := by
  have tolerance := mul_pos balanceTolerance_pos r.maxTokens_pos
  have counted := periods_eq_floor period (clock.trans spans.1)
  have enough : (⌈r.maxTokens / r.tokensToAdd⌉ : ℚ) ≤ (deadline - l.gauge.clock) / r.interval := by
    rw [le_div_iff₀ period]
    linarith [spans.2]
  have count : (⌈r.maxTokens / r.tokensToAdd⌉ : ℚ) ≤ r.rule.periods l.gauge.clock deadline := by
    rw [counted]
    exact_mod_cast Int.le_floor.mpr enough
  have fed : r.maxTokens ≤ r.rule.feed l.gauge.clock deadline := by
    have ceil := Int.le_ceil (r.maxTokens / r.tokensToAdd)
    exact (div_le_iff₀ r.tokensToAdd_pos).mp (ceil.trans count)
  have cap : r.rule.cap = r.maxTokens := rfl
  refine le_min ?_ ?_
  · rw [cap]
    linarith
  · linarith

theorem Outlasts.refills {l : Level} {balance deadline : ℚ} (period : 0 < r.interval) (clock : l.gauge.clock ≤ now)
    (outlasts : Outlasts r balance l.gauge.clock deadline) (floor : balance ≤ l.gauge.level)
    (spans : r.Spans now deadline) : r.maxTokens * (1 - balanceTolerance) ≤ (l.refill r deadline).gauge.level := by
  have tolerance := mul_pos balanceTolerance_pos r.maxTokens_pos
  rcases outlasts with solvent | repaid
  · exact refills_by period clock (by linarith) spans
  · have feed : r.rule.feed l.gauge.clock deadline = r.rule.periods l.gauge.clock deadline * r.tokensToAdd := rfl
    rw [periods_eq_floor period (clock.trans spans.1)] at feed
    have cap : r.rule.cap = r.maxTokens := rfl
    refine le_min ?_ ?_
    · rw [cap]
      linarith
    · rw [feed]
      linarith

end Lifetimes

/-- A bucket that will have refilled by the time it lapses. -/
structure Purse.Repaid (r : Rate) (now : ℚ) (p : Purse) : Prop where
  clock : p.level.gauge.clock ≤ now
  ceiling : p.level.gauge.level ≤ r.maxTokens
  full : r.maxTokens * (1 - balanceTolerance) ≤ (p.level.refill r p.expiresAt).gauge.level

def Book.Repaid (r : Rate) (now : ℚ) (b : Book) : Prop := ∀ p, b.purse = some p → p.Repaid r now

section Repaying

variable {r : Rate} {now t : ℚ} {b : Book}

theorem Book.Repaid.level (repaid : b.Repaid r now) :
    (b.level r now).gauge.clock ≤ now ∧ (b.level r now).gauge.level ≤ r.maxTokens := by
  unfold Book.level
  cases found : b.purse with
  | none => exact ⟨le_rfl, le_rfl⟩
  | some p => exact ⟨Rule.clock_le (repaid p found).clock, min_le_left _ _⟩

theorem Book.Repaid.later (repaid : b.Repaid r t) (order : t ≤ now) : (b.asOf now).Repaid r now := by
  intro p found
  have held := repaid p (Option.filter_eq_some_iff.mp found).1
  exact ⟨held.clock.trans order, held.ceiling, held.full⟩

theorem Book.Repaid.touch (period : 0 < r.interval) (storable : r.Storable) (repaid : b.Repaid r now) {ttl : ℚ}
    (outlasts : Outlasts r (b.level r now).gauge.level (b.level r now).gauge.clock
      (now + (bucketTtl ttl r.config).toRat * 1000)) : (b.act r now (.touch r.config ttl)).Repaid r now := by
  obtain ⟨clock, ceiling⟩ := repaid.level
  rintro p ⟨⟩
  exact ⟨clock, ceiling, outlasts.refills period clock le_rfl (spans_bucketTtl period storable ttl now)⟩

/-- A bucket in debt admits nothing, so a spend starts from a balance that is not. -/
theorem Book.Repaid.spend (period : 0 < r.interval) (storable : r.Storable)
    (repaid : b.Repaid r now) {cost : JsNumber} {ttl : ℚ} {mark : Option (String × ℚ)} {epoch : ℕ}
    (fits : (Action.spend r.config cost ttl mark epoch).Fits now b.account) :
    (b.act r now (.spend r.config cost ttl mark epoch)).Repaid r now := by
  obtain ⟨clock, ceiling⟩ := repaid.level
  obtain ⟨-, free, covers⟩ := spend_fits fits
  have bounds := Level.spend_bounds free covers
  have repaid_spent : ∀ epoch, Purse.Repaid r now ⟨(b.level r now).spend cost.toRat,
      b.generation, b.forgiven, epoch, now + (bucketTtl ttl r.config).toRat * 1000⟩ := fun epoch =>
    ⟨clock, bounds.2.trans ceiling, refills_by period clock bounds.1 (spans_bucketTtl period storable ttl now)⟩
  cases mark with
  | none =>
    rintro p ⟨⟩
    exact repaid_spent _
  | some claim =>
    rintro p ⟨⟩
    exact repaid_spent _

theorem Book.Repaid.credit (repaid : b.Repaid r now) {cost : JsNumber} (usable : usableCost cost = true) :
    (b.act r now (.credit cost (fin r.maxTokens))).Repaid r now := by
  intro p found
  simp only [Book.act, Book.credit, Option.map_eq_some_iff] at found
  obtain ⟨q, held, rfl⟩ := found
  obtain ⟨c, rfl, free⟩ := usableCost_iff.mp usable
  have kept := repaid q held
  refine ⟨kept.clock, min_le_left _ _, kept.full.trans (min_le_min_left _ ?_)⟩
  refine add_le_add_left (le_min kept.ceiling (le_add_of_nonneg_right free)) _

theorem Book.Repaid.empty (period : 0 < r.interval) (storable : r.Storable)
    (outlasts : Outlasts r (Min.min (b.purse.elim 0 fun p => p.level.gauge.level) 0) now
      (now + emptiedTtl r.config * 1000)) : (b.act r now (.empty r.config)).Repaid r now := by
  have usable : (unusableBudget 0 r.config).isSome = false := by
    rw [zero_eq, r.usable le_rfl]
    rfl
  have ttl : emptiedTtl r.config = (bucketTtl 86400 r.config).toRat :=
    if_neg (by rw [usable]; exact Bool.false_ne_true)
  rintro p ⟨⟩
  refine ⟨le_rfl, (min_le_right _ _).trans r.maxTokens_pos.le, ?_⟩
  refine Outlasts.refills (l := ⟨⟨_, now, _⟩, _⟩) period le_rfl outlasts le_rfl ?_
  rw [ttl, ofNat_eq]
  exact spans_bucketTtl period storable 86400 now

theorem Book.Repaid.reset : (b.act r now (.reset (fin r.maxTokens))).Repaid r now := by
  have tolerance := mul_pos balanceTolerance_pos r.maxTokens_pos
  have short : r.maxTokens * (1 - balanceTolerance) ≤ r.maxTokens := by linarith
  rintro p ⟨⟩
  refine ⟨le_rfl, le_rfl, le_min short (short.trans ?_)⟩
  exact le_add_of_nonneg_right (r.rule.feed_nonneg r.tokensToAdd_pos.le _ _)

/-- The floor of a settlement in exact numbers. -/
def Book.floor (b : Book) (balance : ℚ) (spec : SettleSpec) : ℚ :=
  (b.notes spec.markId).elim balance fun n =>
    Min.min balance (Max.max (-debtOf spec.maxDebt) (balance - (spec.actual.toRat - n.claimed)))

theorem Book.floor_le (balance : ℚ) (spec : SettleSpec) : b.floor balance spec ≤ balance := by
  unfold Book.floor
  cases b.notes spec.markId with
  | none => exact le_rfl
  | some n => exact min_le_left _ _

/-- The settlements that find their mark, in exact numbers. -/
def Book.marked (b : Book) : List String → List SettleSpec → List SettleSpec
  | _, [] => []
  | consumed, spec :: rest =>
    if Account.settleable spec = true ∧ spec.markId ∉ consumed ∧ (b.notes spec.markId).isSome = true then
      spec :: b.marked (spec.markId :: consumed) rest
    else b.marked consumed rest

/-- Part of the way through a call's settlements: either none has acted yet, or
the bucket has been corrected to no less than `balance`. -/
def Book.Midway (r : Rate) (now : ℚ) (b : Book) (balance : ℚ) (c : Book) : Prop :=
  (∀ id n, c.notes id = some n → b.notes id = some n) ∧
    ((c.purse = b.purse ∧ balance ≤ (b.level r now).gauge.level) ∨
      ∃ p, c.purse = some p ∧ p.level.gauge.clock = (b.level r now).gauge.clock ∧ balance ≤ p.level.gauge.level ∧
        p.level.gauge.level ≤ r.maxTokens ∧ p.expiresAt = now + (bucketTtl 86400 r.config).toRat * 1000)

theorem Level.refill_settled (period : 0 < r.interval) {l : Level} (clock : now - r.interval < l.gauge.clock)
    (ceiling : l.gauge.level ≤ r.maxTokens) :
    (l.refill r now).gauge.level = l.gauge.level ∧ (l.refill r now).gauge.clock = l.gauge.clock := by
  have below : (now - l.gauge.clock) / r.interval < 1 := by
    rw [div_lt_one period]
    linarith
  have none_ : r.rule.periods l.gauge.clock now = 0 := by
    have periods : r.rule.periods l.gauge.clock now = ⌊(now - l.gauge.clock) / r.interval⌋₊ := if_pos period
    rw [periods]
    exact Nat.floor_eq_zero.mpr below
  have level : (l.refill r now).gauge.level =
    Min.min r.maxTokens (l.gauge.level + r.rule.feed l.gauge.clock now) := rfl
  have moved : (l.refill r now).gauge.clock = l.gauge.clock + r.rule.periods l.gauge.clock now * r.interval := rfl
  rw [level, moved, Rule.feed, none_]
  constructor
  · rw [Nat.cast_zero, zero_mul, add_zero, min_eq_right ceiling]
  · rw [Nat.cast_zero, zero_mul, add_zero]

theorem Book.level_recent (b : Book) (period : 0 < r.interval) (now : ℚ) :
    now - r.interval < (b.level r now).gauge.clock := by
  unfold Book.level
  cases b.purse with
  | none => exact sub_lt_self now period
  | some p => exact Rule.lt_clock (r := r.rule) period p.level.gauge.clock now

theorem Book.Midway.settle (period : 0 < r.interval) (repaid : b.Repaid r now) {balance : ℚ} {c : Book}
    (midway : b.Midway r now balance c) (spec : SettleSpec) :
    b.Midway r now (b.floor balance spec) (c.act r now (.settle spec)) := by
  obtain ⟨clock, ceiling⟩ := repaid.level
  obtain ⟨notes, state⟩ := midway
  have lower := b.floor_le balance spec
  have unmoved : b.Midway r now (b.floor balance spec) c := by
    refine ⟨notes, ?_⟩
    rcases state with ⟨same, held⟩ | ⟨p, found, at_, held, under, lapses⟩
    · exact Or.inl ⟨same, lower.trans held⟩
    · exact Or.inr ⟨p, found, at_, lower.trans held, under, lapses⟩
  simp only [Book.act]
  split
  · rcases c.settle_cases r spec.markId spec.actual.toRat (debtOf spec.maxDebt) now with
      ⟨-, same⟩ | ⟨n, noted, empty, same⟩ | ⟨n, p, noted, found, same⟩
    · rw [same]
      exact unmoved
    · rw [same]
      exact ⟨fun id m marked => notes id m (noted_of_consumed marked).2, unmoved.2⟩
    · rw [same]
      -- the level the settlement starts from, whether or not an earlier entry has corrected it
      have start : (p.level.refill r now).gauge.clock = (b.level r now).gauge.clock ∧
          balance ≤ (p.level.refill r now).gauge.level ∧ (p.level.refill r now).gauge.level ≤ r.maxTokens := by
        rcases state with ⟨same, held⟩ | ⟨q, found', at_, held, under, lapses⟩
        · rw [found] at same
          have here : b.level r now = p.level.refill r now := by simp [Book.level, ← same]
          rw [← here]
          exact ⟨rfl, held, ceiling⟩
        · cases Option.some.inj (found.symm.trans found')
          have recent := b.level_recent period now
          have settled := Level.refill_settled period (at_ ▸ recent) under
          rw [settled.1, settled.2]
          exact ⟨at_, held, under⟩
      obtain ⟨at_, held, under⟩ := start
      have floor : b.floor balance spec = Min.min balance (Max.max (-debtOf spec.maxDebt)
          (balance - (spec.actual.toRat - n.claimed))) := by
        simp [Book.floor, notes _ n noted]
      refine ⟨fun id m marked => notes id m (noted_of_consumed marked).2, Or.inr ⟨_, rfl, at_, ?_, ?_, rfl⟩⟩
      · rw [floor]
        refine le_trans (min_le_min held (max_le_max le_rfl (sub_le_sub_right held _))) ?_
        exact le_corrected r p _ n _ _
      · exact corrected_le r p _ n _ _ under
  · exact unmoved

/-- A settlement leaves no mark that was gone, nor its own. -/
theorem Book.act_consumed (c : Book) (r : Rate) (now : ℚ) {spec : SettleSpec} {id : String}
    (applies : Account.settleable spec = true)
    (gone : id = spec.markId ∨ c.notes id = none) : (c.act r now (.settle spec)).notes id = none := by
  simp only [Book.act, applies, if_true]
  rcases c.settle_cases r spec.markId spec.actual.toRat (debtOf spec.maxDebt) now with
    ⟨absent, same⟩ | ⟨n, -, -, same⟩ | ⟨n, p, -, -, same⟩
  · rw [same]
    rcases gone with rfl | gone
    · exact absent
    · exact gone
  all_goals
    rw [same]
    by_cases own : id = spec.markId
    · rw [own]
      exact Function.update_self _ _ _
    · exact (Function.update_of_ne own _ _).trans (gone.resolve_left own)

/-- A settlement without its mark does nothing. -/
theorem Book.act_unmarked (c : Book) (r : Rate) (now : ℚ) {spec : SettleSpec}
    (unmarked : Account.settleable spec = true → c.notes spec.markId = none) : c.act r now (.settle spec) = c := by
  simp only [Book.act]
  split
  · rename_i applies
    rcases c.settle_cases r spec.markId spec.actual.toRat (debtOf spec.maxDebt) now with
      ⟨-, same⟩ | ⟨n, noted, -, -⟩ | ⟨n, p, noted, -, -⟩
    · exact same
    · exact absurd (noted.symm.trans (unmarked applies)) (by simp)
    · exact absurd (noted.symm.trans (unmarked applies)) (by simp)
  · rfl

theorem Book.Midway.repaid (period : 0 < r.interval) (storable : r.Storable) (repaid : b.Repaid r now) {balance : ℚ}
    {c : Book} (midway : b.Midway r now balance c)
    (outlasts : Outlasts r balance (b.level r now).gauge.clock (now + (bucketTtl 86400 r.config).toRat * 1000)) :
    c.Repaid r now := by
  obtain ⟨clock, -⟩ := repaid.level
  intro p found
  rcases midway.2 with ⟨same, -⟩ | ⟨q, found', at_, held, under, lapses⟩
  · exact repaid p (same.symm.trans found)
  · cases Option.some.inj (found.symm.trans found')
    rw [← at_] at clock outlasts
    refine ⟨clock, under, ?_⟩
    rw [lapses]
    refine outlasts.refills period clock held ?_
    rw [ofNat_eq]
    exact spans_bucketTtl period storable 86400 now

end Repaying

/-- The actions that never size the key by its balance. -/
def Action.Unsized : Action → Prop
  | .credit _ _ => True
  | .reset _ => True
  | .prolong _ _ => True
  | _ => False

section RepaidRuns

variable {r : Rate} {key : String} {t now : ℚ} {s : State} {b : Book} {a' : Account} {actions : List Action}

theorem Trail.midway {specs : List SettleSpec} {consumed : List String} {c : Book} {balance : ℚ}
    (period : 0 < r.interval)
    (repaid : b.Repaid r now) (trail : Trail now c.account (specs.map .settle) a')
    (uses : ∀ spec ∈ specs, spec.config = r.config) (gone : ∀ id ∈ consumed, c.notes id = none)
    (midway : b.Midway r now balance c) :
    ∃ c' : Book, a' = c'.account ∧ (b.marked consumed specs = [] → c' = c) ∧
      b.Midway r now ((b.marked consumed specs).foldl b.floor balance) c' := by
  induction specs generalizing consumed c balance with
  | nil => exact ⟨c, trail.of_nil, fun _ => rfl, midway⟩
  | cons spec rest ih =>
    rw [List.forall_mem_cons] at uses
    cases trail with
    | act fits trail =>
      have used : (Action.settle spec).Uses r := uses.1
      rw [Book.act_account used fits] at trail
      rw [Book.marked]
      split
      · rename_i marked
        have left : ∀ id ∈ spec.markId :: consumed, (c.act r now (.settle spec)).notes id = none := by
          intro id member
          refine c.act_consumed r now marked.1 ?_
          rcases List.mem_cons.mp member with own | before
          · exact .inl own
          · exact .inr (gone id before)
        obtain ⟨c', same, -, there⟩ := ih trail uses.2 left (midway.settle period repaid spec)
        exact ⟨c', same, fun none_ => absurd none_ (List.cons_ne_nil _ _), there⟩
      · rename_i unmarked
        have idle : c.act r now (.settle spec) = c := by
          refine c.act_unmarked r now fun applies => ?_
          by_cases before : spec.markId ∈ consumed
          · exact gone _ before
          · cases noted : c.notes spec.markId with
            | none => rfl
            | some n =>
              have there : (b.notes spec.markId).isSome = true := by rw [midway.1 _ n noted, Option.isSome_some]
              exact absurd ⟨applies, before, there⟩ unmarked
        rw [idle] at trail
        exact ih trail uses.2 gone midway

theorem Trail.unsized (repaid : b.Repaid r now) (trail : Trail now b.account actions a')
    (uses : ∀ action ∈ actions, action.Uses r) (unsized : ∀ action ∈ actions, action.Unsized) :
    ∃ b' : Book, a' = b'.account ∧ b'.Repaid r now := by
  refine trail.book (I := fun c => c.Repaid r now) ?_ uses unsized repaid
  intro c action used plain fits held
  cases action with
  | credit cost maxTokens =>
    cases used
    exact held.credit fits
  | reset maxTokens =>
    cases used
    exact Book.Repaid.reset
  | prolong id ttl => exact held
  | touch config ttl => exact plain.elim
  | spend config cost ttl mark epoch => exact plain.elim
  | empty config => exact plain.elim
  | settle spec => exact plain.elim
  | drop bucket ids => exact plain.elim

/-- A claim, whatever it comes to. -/
theorem Draws.repaid (period : 0 < r.interval) (storable : r.Storable) (repaid : b.Repaid r now) {d : Draw}
    {admitted : Bool} (draws : Draws d admitted actions) (config : d.config = r.config)
    (outlasts : ∀ ttl, normalizeStateTtlSeconds d.ttl = .ok ttl →
      Outlasts r (b.level r now).gauge.level (b.level r now).gauge.clock (now + (bucketTtl ttl r.config).toRat * 1000))
    (trail : Trail now b.account actions a') : ∃ b' : Book, a' = b'.account ∧ b'.Repaid r now := by
  cases draws with
  | untouched => exact ⟨b, trail.of_nil, repaid⟩
  | declined normal =>
    rw [config] at trail
    obtain ⟨fits, rfl⟩ := trail.of_single
    exact ⟨_, Book.act_account (r := r) rfl fits, repaid.touch period storable (outlasts _ normal)⟩
  | admitted normal made =>
    rw [config] at trail
    obtain ⟨fits, rfl⟩ := trail.of_single
    exact ⟨_, Book.act_account (r := r) rfl fits, repaid.spend period storable fits⟩

theorem Follows.level (follows : Follows key Set.univ now s b.account) :
    Dianemo.refill s key r.config now = (b.level r now).state :=
  (follows.refill r.config).trans (b.refill_account r now)

theorem Follows.floor (follows : Follows key Set.univ now s b.account) : settledFloor key now s = b.floor := by
  funext balance spec
  have at_ := follows.marks spec.markId trivial
  have marks : b.account.marks spec.markId = (b.notes spec.markId).map Note.mark := rfl
  rw [marks] at at_
  unfold settledFloor Book.floor
  cases noted : b.notes spec.markId with
  | none =>
    rw [noted] at at_
    have absent : s.hash (claimMarkKey key spec.markId) now = none := by
      rw [State.hash, at_]
      rfl
    rw [absent]
    rfl
  | some n =>
    rw [noted] at at_
    obtain ⟨h, held, is⟩ := at_
    simp only [hash_of_held held, is.claimed, parseFiniteStored_num]
    rfl

/-- A mark is there in the store if it is in exact numbers. -/
theorem Follows.marked_iff (follows : Follows key Set.univ now s b.account) (id : String) :
    (s.hash (claimMarkKey key id) now).isSome = (b.notes id).isSome := by
  have at_ := follows.marks id trivial
  have marks : b.account.marks id = (b.notes id).map Note.mark := rfl
  rw [marks] at at_
  cases noted : b.notes id with
  | none =>
    rw [noted] at at_
    rw [State.hash, at_]
    rfl
  | some n =>
    rw [noted] at at_
    obtain ⟨h, held, -⟩ := at_
    rw [hash_of_held held]
    rfl

theorem Follows.marked (follows : Follows key Set.univ now s b.account) (consumed : List String)
    (specs : List SettleSpec) :
    markedSettlements key now s consumed specs =
      b.marked consumed (specs.filter fun spec => decide (spec.key = key)) := by
  induction specs generalizing consumed with
  | nil => rfl
  | cons spec rest ih =>
    by_cases here : spec.key = key
    · rw [List.filter_cons_of_pos (by simpa using here), markedSettlements, Book.marked, follows.marked_iff, ih, ih]
      simp only [here, true_and]
    · rw [List.filter_cons_of_neg (by simpa using here), markedSettlements, if_neg fun all => here all.1, ih]

theorem Follows.stored (follows : Follows key Set.univ now s b.account) :
    (parseFiniteStored (s.hget key "tokens" now) 0).toRat = b.purse.elim 0 fun p => p.level.gauge.level := by
  rw [follows.bucket.counters.2.2]
  unfold Book.account
  cases b.purse with
  | none => rfl
  | some p => rfl

theorem drawn_repaid (period : 0 < r.interval) (storable : r.Storable) (repaid : b.Repaid r now)
    (follows : Follows key Set.univ now s b.account) {call : BucketCall} {report : Report}
    (under : ∀ d ∈ call.draws key, d.config = r.config)
    (repays : ∀ d ∈ call.draws key, ∀ ttl, normalizeStateTtlSeconds d.ttl = .ok ttl →
      Outlasts r (refill s key r.config now).tokens.toRat (refill s key r.config now).lastUpdate.toRat
        (now + (bucketTtl ttl r.config).toRat * 1000))
    (does : (call.draws key = [] ∧ actions = []) ∨ ∃ d, call.draws key = [d] ∧ Draws d report.admitted actions)
    (trail : Trail now b.account actions a') : ∃ b' : Book, a' = b'.account ∧ b'.Repaid r now := by
  rcases does with ⟨-, rfl⟩ | ⟨d, one, draws⟩
  · exact ⟨b, trail.of_nil, repaid⟩
  · have member : d ∈ call.draws key := by simp [one]
    rw [follows.level] at repays
    exact draws.repaid period storable repaid (under d member) (repays d member) trail

/-- A step whose debts its lifetime outlasts leaves a bucket that will have refilled. -/
theorem repaid_trail (period : 0 < r.interval) (storable : r.Storable) (repaid : b.Repaid r now)
    (follows : Follows key Set.univ now s b.account) {call : BucketCall} {report : Report}
    (under : call.Under r key) (repays : call.Repays r key now s) (stays : ∀ keys, call ≠ .del keys)
    (does : call.Does key now b.account report actions) (trail : Trail now b.account actions a') :
    ∃ b' : Book, a' = b'.account ∧ b'.Repaid r now := by
  have uses := does.uses under
  cases call with
  | acquireTokens cost config mark => exact drawn_repaid period storable repaid follows under.1 repays does trail
  | tryAdmitImmediately queueKey freezeKey cost config ttl mark =>
    exact drawn_repaid period storable repaid follows under.1 repays does trail
  | acquireMultiLimit specs => exact drawn_repaid period storable repaid follows under.1 repays does trail
  | tryAdmitMultiLimit queueKey freezeKeys specs ttl =>
    exact drawn_repaid period storable repaid follows under.1 repays does trail
  | getTokenBucketState config =>
    cases does
    exact ⟨b, trail.of_nil, repaid⟩
  | refundTokens cost maxTokens freezeKey =>
    refine trail.unsized repaid uses ?_
    rcases does with rfl | rfl <;> simp [Action.Unsized]
  | releaseMultiLimit specs =>
    refine trail.unsized repaid uses ?_
    intro action member
    obtain ⟨spec, -, -, rfl⟩ := does action member
    trivial
  | emptyTokenBucket config =>
    cases does
    cases under
    obtain ⟨fits, rfl⟩ := trail.of_single
    refine ⟨_, Book.act_account (r := r) rfl fits, Book.Repaid.empty period storable ?_⟩
    rw [← follows.stored]
    exact repays
  | resetTokenBucket maxTokens =>
    cases does
    exact trail.unsized repaid uses (by simp [Action.Unsized])
  | settleTokens specs =>
    obtain ⟨rfl, -⟩ := does
    have start : b.Midway r now (b.level r now).gauge.level b := ⟨fun _ _ found => found, Or.inl ⟨rfl, le_rfl⟩⟩
    obtain ⟨c, rfl, idle, midway⟩ :=
      trail.midway period repaid under.2.2 (fun id (member : id ∈ []) => absurd member List.not_mem_nil) start
    simp only [BucketCall.Repays, follows.level, follows.floor, follows.marked] at repays
    refine ⟨c, rfl, ?_⟩
    rcases repays with none_ | outlasts
    · rw [idle none_]
      exact repaid
    · exact midway.repaid period storable repaid outlasts
  | touchClaimMark id ttlSeconds =>
    refine trail.unsized repaid uses ?_
    rcases does with rfl | ⟨ttl, rfl⟩ <;> simp [Action.Unsized]
  | del keys => exact absurd rfl (stays keys)
  | elsewhere after =>
    cases does
    exact ⟨b, trail.of_nil, repaid⟩

theorem repaid_step (period : 0 < r.interval) (storable : r.Storable) {call : BucketCall} (later : t ≤ now)
    (allowed : (repaidRuns r key).allowed now call s) (follows : Follows key Set.univ t s b.account)
    (repaid : b.Repaid r t) :
    ∃ b' : Book, Follows key Set.univ now (call.exec key now s).2 b'.account ∧ b'.Repaid r now := by
  obtain ⟨repays, under, apart, stays⟩ := allowed
  have there := follows.later later
  rw [b.asOf_account now] at there
  obtain ⟨actions, ⟨a', trail, after⟩, does⟩ := there.call apart
  obtain ⟨b', rfl, done⟩ := repaid_trail period storable (repaid.later later) there under repays stays does trail
  exact ⟨b', after, done⟩

theorem Follows.expiresFull (follows : Follows key Set.univ now s b.account) (repaid : b.Repaid r now) :
    ExpiresFull r key now s := by
  intro e expiresAt live lapses
  have at_ := follows.bucket
  have purse : b.account.bucket = b.purse.map Purse.bucket := rfl
  rw [purse] at at_
  cases found : b.purse with
  | none =>
    rw [found] at at_
    exact absurd (live.symm.trans at_) (by simp)
  | some p =>
    rw [found] at at_
    obtain ⟨h, is, reads⟩ := at_.hget
    have stored : storedBucket s key r.config now = p.level.state := by
      simp only [storedBucket, reads, is.tokens, is.lastUpdate, is.overflow, is.fills, parseFiniteStored_num]
      rfl
    obtain ⟨_, ⟨e', live', -, lapses'⟩, -⟩ := at_
    cases Option.some.inj (live.symm.trans live')
    cases Option.some.inj (lapses.symm.trans lapses')
    rw [stored, Level.refill_state]
    exact fin_le_fin.mpr (repaid p found).full

/-- A key whose every step leaves no debt that outlives it never lapses before its bucket has refilled. -/
theorem expires_full (period : 0 < r.interval) (storable : r.Storable) (untouched : s.store key = none)
    (unmarked : ∀ id, s.store (claimMarkKey key id) = none) {history : List (ℚ × BucketCall)}
    (valid : (repaidRuns r key).Valid t s history) :
    ExpiresFull r key ((repaidRuns r key).clock t history) ((repaidRuns r key).final s history) := by
  have start : Follows key Set.univ t s (Book.blank s.epochs).account :=
    Follows.absent (by simp [State.live, untouched]) fun id _ => by simp [State.live, unmarked id]
  have step : ∀ t now call s, t ≤ now → (repaidRuns r key).allowed now call s →
      (∃ b : Book, Follows key Set.univ t s b.account ∧ b.Repaid r t) →
      ∃ b : Book, Follows key Set.univ now ((repaidRuns r key).step now call s) b.account ∧ b.Repaid r now := by
    rintro t now call s later allowed ⟨b, follows, repaid⟩
    exact repaid_step period storable later allowed follows repaid
  have blank : (Book.blank s.epochs).Repaid r t := by
    intro p found
    cases found
  obtain ⟨b, follows, repaid⟩ := valid.invariant step ⟨_, start, blank⟩
  exact follows.expiresFull repaid

end RepaidRuns

theorem expires_full_overspent :
    ExpiresFull fivePerSecond "bucket" 500 ((repaidRuns fivePerSecond "bucket").final State.fresh overspentRun) := by
  have claims : ∀ now s, 0 ≤ (refill s "bucket" fivePerSecond.config now).tokens.toRat →
      (repaidRuns fivePerSecond "bucket").allowed now
        (.acquireTokens 4 fivePerSecond.config (some ⟨"claim", 60⟩)) s := by
    intro now s solvent
    refine ⟨fun d _ ttl _ => Or.inl solvent, ⟨?_, ?_, ?_⟩, trivial, by simp⟩ <;>
      simp [BucketCall.draws, BucketCall.credits, BucketCall.settles]
  have settles : ∀ now s,
      (BucketCall.settleTokens [⟨"bucket", "claim", 20, fivePerSecond.config, 6⟩]).Repays fivePerSecond "bucket" now s →
      (repaidRuns fivePerSecond "bucket").allowed now
        (.settleTokens [⟨"bucket", "claim", 20, fivePerSecond.config, 6⟩]) s := by
    intro now s repays
    refine ⟨repays, ⟨?_, ?_, ?_⟩, ?_, by simp⟩ <;>
      simp [BucketCall.draws, BucketCall.credits, BucketCall.settles, BucketCall.Apart]
  have repays : (BucketCall.settleTokens [⟨"bucket", "claim", 20, fivePerSecond.config, 6⟩]).Repays fivePerSecond
      "bucket" 500 ((BucketCall.acquireTokens 4 fivePerSecond.config (some ⟨"claim", 60⟩)).exec "bucket" 0
        State.fresh).2 := by
    unfold BucketCall.Repays
    decide +kernel
  have valid : (repaidRuns fivePerSecond "bucket").Valid 0 State.fresh overspentRun :=
    Timed.Machine.valid_cons.mpr ⟨le_rfl, claims _ _ (by decide +kernel),
      Timed.Machine.valid_cons.mpr ⟨by norm_num, settles _ _ repays, Timed.Machine.valid_nil⟩⟩
  exact expires_full (by decide +kernel) (by unfold Rate.Storable; decide +kernel) rfl (fun _ => rfl) valid

theorem tenPerDay_pos : (0 : ℚ) < 10 := by norm_num

/-- Ten tokens, all back once a day. -/
def tenPerDay : Rate := ⟨10, 10, 86400000, tenPerDay_pos, tenPerDay_pos⟩

/-- A day's tokens claimed and then settled at a hundred days' worth. -/
def indebtedRun : List (ℚ × BucketCall) :=
  [(0, .acquireTokens 10 tenPerDay.config (some ⟨"claim", 60⟩)),
    (1, .settleTokens [⟨"bucket", "claim", 1000, tenPerDay.config, 1000⟩])]

/-- The key lapses after a day, with ninety-eight days of debt still to repay. -/
theorem indebted_expires_full_not :
    0 < tenPerDay.interval ∧ tenPerDay.Storable ∧ (ratedRuns tenPerDay "bucket").Valid 0 State.fresh indebtedRun ∧
      ¬ ExpiresFull tenPerDay "bucket" 1 ((ratedRuns tenPerDay "bucket").final State.fresh indebtedRun) := by
  have claims : ∀ now s, (ratedRuns tenPerDay "bucket").allowed now
      (.acquireTokens 10 tenPerDay.config (some ⟨"claim", 60⟩)) s := by
    intro now s
    refine ⟨⟨?_, ?_, ?_⟩, trivial, by simp, ?_⟩ <;> simp [BucketCall.draws, BucketCall.credits, BucketCall.settles]
  have settles : ∀ now s, (ratedRuns tenPerDay "bucket").allowed now
      (.settleTokens [⟨"bucket", "claim", 1000, tenPerDay.config, 1000⟩]) s := by
    intro now s
    refine ⟨⟨?_, ?_, ?_⟩, ?_, by simp, ?_⟩ <;>
      simp [BucketCall.draws, BucketCall.credits, BucketCall.settles, BucketCall.Apart, ofNat_eq]
  have valid : (ratedRuns tenPerDay "bucket").Valid 0 State.fresh indebtedRun :=
    Timed.Machine.valid_cons.mpr ⟨le_rfl, claims _ _,
      Timed.Machine.valid_cons.mpr ⟨by norm_num, settles _ _, Timed.Machine.valid_nil⟩⟩
  refine ⟨by decide +kernel, by unfold Rate.Storable; decide +kernel, valid, ?_⟩
  intro full
  have lapses : (((ratedRuns tenPerDay "bucket").final State.fresh indebtedRun).live "bucket" 1).bind Entry.expiresAt =
      some 86400001 := by
    decide +kernel
  obtain ⟨e, live, at_⟩ := Option.bind_eq_some_iff.mp lapses
  exact absurd (full e _ live at_) (by decide +kernel)

end Dianemo
