import Dianemo.Focus

namespace Dianemo

open JsNumber

/-- `x` where it is finite, `fallback` where it is not: a stored number read back. -/
def JsNumber.orElse (x fallback : JsNumber) : JsNumber := if x.isFinite then x else fallback

/-- What the hash under a bucket key says, and when it lapses. -/
structure Bucket where
  state : BucketState
  generation : JsNumber
  forgiven : JsNumber
  epoch : Option ℕ
  expiresAt : ℚ

/-- What the hash under a claim mark's key says, and when it lapses. -/
structure Mark where
  claimed : JsNumber
  overflow : JsNumber
  fills : JsNumber
  generation : JsNumber
  forgiven : JsNumber
  epoch : ℕ
  expiresAt : ℚ

/-- One bucket key with the marks beside it. No epoch above `epochs` has been given out here. -/
structure Account where
  bucket : Option Bucket
  marks : String → Option Mark
  epochs : ℕ

def Bucket.stored (b : Bucket) (config : TokenBucketConfig) (now : ℚ) : BucketState where
  tokens := b.state.tokens.orElse config.maxTokens
  lastUpdate := b.state.lastUpdate.orElse (fin now)
  overflow := b.state.overflow.orElse 0
  fills := b.state.fills.orElse 0

namespace Account

/-- The account with everything that has lapsed by `now` gone. -/
def asOf (a : Account) (now : ℚ) : Account where
  bucket := a.bucket.filter fun b => decide (now < b.expiresAt)
  marks id := (a.marks id).filter fun m => decide (now < m.expiresAt)
  epochs := a.epochs

def refill (a : Account) (config : TokenBucketConfig) (now : ℚ) : BucketState :=
  match a.bucket with
  | none => BucketState.refill ⟨config.maxTokens, fin now, 0, 0⟩ config now
  | some b => (b.stored config now).refill config now

def generation (a : Account) : JsNumber := a.bucket.elim 0 Bucket.generation

def forgiven (a : Account) : JsNumber := a.bucket.elim 0 Bucket.forgiven

def epoch (a : Account) : Option ℕ := a.bucket.bind Bucket.epoch

/-- The four counters written and the key given `ttl` seconds. -/
def write (a : Account) (state : BucketState) (ttl now : ℚ) : Account :=
  { a with bucket := some ⟨state, a.generation, a.forgiven, a.epoch, now + ttl * 1000⟩ }

/-- A mark against the bucket, which takes `epoch` if it has none. -/
def mark (a : Account) (claim : String × ℚ) (cost : JsNumber) (state : BucketState)
    (epoch : ℕ) (now : ℚ) : Account :=
  let taken := a.epoch.getD epoch
  { bucket := a.bucket.map fun b => { b with epoch := some taken }
    marks := Function.update a.marks claim.1 (some
      ⟨cost, state.overflow, state.fills, a.generation, a.forgiven, taken, now + claim.2 * 1000⟩)
    epochs := if a.epoch.isSome then a.epochs else epoch }

/-- The cost taken off the refilled bucket `state`, and marked if a mark was asked for. -/
def spend (a : Account) (state : BucketState) (cost : JsNumber) (ttl : ℚ) (mark : Option (String × ℚ)) (epoch : ℕ)
    (now : ℚ) : Account :=
  let spent := a.write { state with tokens := state.tokens - cost } ttl now
  match mark with
  | none => spent
  | some claim => spent.mark claim cost state epoch now

/-- The balance overwritten and the generation moved on. -/
def overwrite (a : Account) (tokens : JsNumber) (ttl now : ℚ) : Account :=
  let state : BucketState :=
    { tokens := tokens
      lastUpdate := fin now
      overflow := a.bucket.elim 0 fun b => b.state.overflow.orElse 0
      fills := a.bucket.elim 0 fun b => b.state.fills.orElse 0 }
  { a with bucket := some ⟨state, (a.generation + 1).orElse 0, a.forgiven, a.epoch, now + ttl * 1000⟩ }

/-- What `settleAmount` is given for the mark `m` and the refilled bucket `state`. -/
def settleInput (a : Account) (spec : SettleSpec) (m : Mark) (state : BucketState) : SettleInput where
  tokens := state.tokens
  maxTokens := spec.config.maxTokens
  maxDebt := spec.maxDebt
  actual := spec.actual
  claimed := m.claimed.orElse 0
  overflowNow := state.overflow
  overflowAtClaim := m.overflow.orElse 0
  forgivenNow := a.forgiven
  forgivenAtClaim := m.forgiven.orElse 0
  fillsNow := state.fills
  fillsAtClaim := m.fills.orElse 0
  generationNow := a.generation
  generationAtClaim := m.generation.orElse 0
  epochNow := (a.epoch.map fun n : ℕ => Field.num (fin n)).getD (.text "")
  epochAtClaim := .num (fin m.epoch)

def outcome (a : Account) (spec : SettleSpec) (m : Mark) (now : ℚ) : SettleOutcome :=
  settleAmount (a.settleInput spec m (a.refill spec.config now))

/-- Whether the backend can act on a settlement. -/
def settleable (spec : SettleSpec) : Bool :=
  decide (¬ (¬ spec.actual.isFinite ∨ spec.actual < 0 ∨ (unusableBudget 0 spec.config).isSome))

theorem settleable_iff {spec : SettleSpec} :
    settleable spec = true ↔ spec.actual.isFinite = true ∧ ¬ spec.actual < 0 ∧
      unusableBudget 0 spec.config = none := by
  simp only [settleable, decide_eq_true_eq, not_or, Bool.not_eq_true, Bool.not_eq_false, Option.isSome_eq_false_iff,
    Option.isNone_iff_eq_none]

/-- The correction for a consumed mark: what it reports, and what it leaves. -/
def applySettlement (a : Account) (spec : SettleSpec) (m : Mark) (now : ℚ) : SettleResult × Account :=
  match a.bucket with
  | none => (⟨spec.key, true, 0, 0⟩, a)
  | some b =>
    let state := a.refill spec.config now
    let outcome := a.outcome spec m now
    let corrected : Bucket :=
      { state := { state with tokens := state.tokens - outcome.applied }
        generation := b.generation
        forgiven := outcome.forgiven.orElse 0
        epoch := b.epoch
        expiresAt := now + (bucketTtl 86400 spec.config).toRat * 1000 }
    (⟨spec.key, true, outcome.applied, outcome.unapplied⟩, { a with bucket := some corrected })

def settle (a : Account) (spec : SettleSpec) (now : ℚ) : SettleResult × Account :=
  match a.marks spec.markId with
  | none => (⟨spec.key, false, 0, 0⟩, a)
  | some m =>
    if settleable spec then
      applySettlement { a with marks := Function.update a.marks spec.markId none } spec m now
    else (⟨spec.key, false, 0, 0⟩, a)

/-- The settlements of one call in turn. -/
def settleAll (now : ℚ) : List SettleSpec → Account → List SettleResult × Account
  | [], a => ([], a)
  | spec :: rest, a => ((a.settle spec now).1 :: (settleAll now rest (a.settle spec now).2).1,
      (settleAll now rest (a.settle spec now).2).2)

theorem settle_key (a : Account) (spec : SettleSpec) (now : ℚ) : (a.settle spec now).1.key = spec.key := by
  unfold settle
  split
  · rfl
  · split
    · unfold applySettlement
      split <;> rfl
    · rfl

end Account

/-- What a backend operation can do to a bucket key and its marks. -/
inductive Action where
  | touch (config : TokenBucketConfig) (ttl : ℚ)
  | spend (config : TokenBucketConfig) (cost : JsNumber) (ttl : ℚ) (mark : Option (String × ℚ)) (epoch : ℕ)
  | credit (cost maxTokens : JsNumber)
  | empty (config : TokenBucketConfig)
  | reset (maxTokens : JsNumber)
  | settle (spec : SettleSpec)
  | prolong (id : String) (ttl : ℚ)
  | drop (bucket : Bool) (ids : String → Bool)

/-- The lifetime `emptyTokenBucket` gives the key. -/
def emptiedTtl (config : TokenBucketConfig) : ℚ :=
  if (unusableBudget 0 config).isSome then 86400 else (bucketTtl 86400 config).toRat

namespace Action

def apply (now : ℚ) (a : Account) : Action → Account
  | .touch config ttl => a.write (a.refill config now) (bucketTtl ttl config).toRat now
  | .spend config cost ttl mark epoch =>
    a.spend (a.refill config now) cost (bucketTtl ttl config).toRat mark epoch now
  | .credit cost maxTokens =>
    let credited := a.bucket.map fun b =>
      { b with state := { b.state with tokens := maxTokens.min (b.state.tokens.orElse 0 + cost) } }
    { a with bucket := credited }
  | .empty config => a.overwrite ((a.bucket.elim 0 fun b => b.state.tokens.orElse 0).min 0) (emptiedTtl config) now
  | .reset maxTokens => a.overwrite maxTokens 86400 now
  | .settle spec => (a.settle spec now).2
  | .prolong id ttl =>
    let prolonged := (a.marks id).map fun m => { m with expiresAt := now + ttl * 1000 }
    { a with marks := Function.update a.marks id prolonged }
  | .drop bucket ids =>
    { a with
      bucket := if bucket then none else a.bucket
      marks := fun id => if ids id then none else a.marks id }

/-- What the operation has checked by the time it acts. -/
def Fits (now : ℚ) (a : Account) : Action → Prop
  | .touch config ttl => WholeTtl ttl ∧ unusableBudget 0 config = none
  | .spend config cost ttl mark epoch => WholeTtl ttl ∧ unusableBudget cost config = none ∧
      coversCost (a.refill config now).tokens cost config.maxTokens = true ∧
      (∀ claim ∈ mark, WholeTtl claim.2) ∧ a.epochs < epoch
  | .credit cost _ => usableCost cost = true
  | .prolong _ ttl => WholeTtl ttl
  | _ => True

end Action

/-- A chain of actions at one instant, each fitting where it happens. -/
inductive Trail (now : ℚ) : Account → List Action → Account → Prop
  | done {a} : Trail now a [] a
  | act {a a' action rest} : action.Fits now a → Trail now (action.apply now a) rest a' →
      Trail now a (action :: rest) a'

theorem Trail.single {now : ℚ} {a : Account} {action : Action} (fits : action.Fits now a) :
    Trail now a [action] (action.apply now a) :=
  .act fits .done

theorem Trail.append {now : ℚ} {a b c : Account} {early late : List Action} (first : Trail now a early b)
    (second : Trail now b late c) : Trail now a (early ++ late) c := by
  induction first with
  | done => exact second
  | act fits _ ih => exact .act fits (ih second)

theorem Trail.settleAll (now : ℚ) (specs : List SettleSpec) (a : Account) :
    Trail now a (specs.map .settle) (Account.settleAll now specs a).2 := by
  induction specs generalizing a with
  | nil => exact .done
  | cons spec rest ih => exact .act trivial (ih _)

theorem Trail.of_single {now : ℚ} {a a' : Account} {action : Action} (trail : Trail now a [action] a') :
    action.Fits now a ∧ a' = action.apply now a := by
  cases trail with
  | act fits rest =>
    cases rest
    exact ⟨fits, rfl⟩

theorem Trail.of_nil {now : ℚ} {a a' : Account} (trail : Trail now a [] a') : a' = a := by
  cases trail
  rfl

theorem Trail.unique {now : ℚ} {a b c : Account} {actions : List Action} (first : Trail now a actions b)
    (second : Trail now a actions c) : b = c := by
  induction first with
  | done =>
    cases second
    rfl
  | act _ _ ih =>
    cases second with
    | act _ rest => exact ih rest

/-- What every action keeps, every trail keeps. -/
theorem Trail.invariant {now : ℚ} {I : Account → Prop} {P : Action → Prop}
    (step : ∀ a action, P action → action.Fits now a → I a → I (action.apply now a)) {a a' : Account}
    {actions : List Action} (trail : Trail now a actions a') (proper : ∀ action ∈ actions, P action) (start : I a) :
    I a' := by
  induction trail with
  | done => exact start
  | act fits _ ih =>
    have head := proper _ List.mem_cons_self
    exact ih (fun action member => proper action (List.mem_cons_of_mem _ member)) (step _ _ head fits start)

end Dianemo
