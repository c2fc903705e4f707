import Dianemo.Freeze

namespace Dianemo

open JsNumber

structure TokenBucketConfig where
  maxTokens : JsNumber
  tokensToAdd : JsNumber
  interval : JsNumber

structure ClaimMark where
  id : String
  ttlSeconds : JsNumber

structure SettleSpec where
  key : String
  markId : String
  actual : JsNumber
  config : TokenBucketConfig
  maxDebt : JsNumber

structure SettleResult where
  key : String
  settled : Bool
  applied : JsNumber
  unapplied : JsNumber

structure AcquireTokensResult where
  acquired : Bool
  remainingTokens : JsNumber
  waitTime : Option JsNumber := none
  error : Option String := none

/-- A bucket as `refill` leaves it. -/
structure BucketState where
  tokens : JsNumber
  lastUpdate : JsNumber
  overflow : JsNumber
  fills : JsNumber

/-- `BALANCE_TOLERANCE`. -/
def balanceTolerance : ℚ := 1 / 1000000000

def coversCost (tokens cost maxTokens : JsNumber) : Bool :=
  decide (cost - maxTokens.min cost * fin balanceTolerance ≤ tokens)

def usableCost (cost : JsNumber) : Bool := cost.isFinite && decide (0 ≤ cost)

/-- Why this budget cannot admit anything, if it cannot. -/
def unusableBudget (cost : JsNumber) (config : TokenBucketConfig) : Option String :=
  if ¬ 0 < config.tokensToAdd then some "tokensToAdd must be greater than 0"
  else if ¬ config.maxTokens.isFinite ∨ config.maxTokens ≤ 0 then
    some "maxTokens must be a finite number greater than 0"
  else if ¬ usableCost cost then some "cost must be a finite number that is not negative"
  else if ¬ config.interval.isFinite then some "interval must be a finite number"
  else none

/-- A bucket key's lifetime in seconds: `ttlSeconds`, or longer for a bucket
that takes longer than that to refill from empty. -/
def bucketTtl (ttlSeconds : JsNumber) (config : TokenBucketConfig) : JsNumber :=
  let refill := ((config.maxTokens / config.tokensToAdd).ceil * config.interval / 1000).ceil
  if ¬ ttlSeconds < refill then ttlSeconds else refill.min (fin redisMaxTtlSeconds)

def claimMarkKey (bucketKey markId : String) : String := bucketKey ++ ":claim:" ++ markId

/-- A claim mark with its lifetime normalised, or thrown on. -/
def claimMark (mark : Option ClaimMark) : Except RangeError (Option (String × ℚ)) :=
  match mark with
  | none => .ok none
  | some mark => (normalizeStateTtlSeconds mark.ttlSeconds).map fun ttl => some (mark.id, ttl)

/-- The four counters as the hash holds them, an unusable field read as absent. -/
def storedBucket (s : State) (key : String) (config : TokenBucketConfig) (now : ℚ) : BucketState where
  tokens := parseFiniteStored (s.hget key "tokens" now) config.maxTokens
  lastUpdate := parseFiniteStored (s.hget key "lastUpdate" now) (fin now)
  overflow := parseFiniteStored (s.hget key "overflow" now) 0
  fills := parseFiniteStored (s.hget key "fills" now) 0

/-- The whole intervals between `lastUpdate` and `now`, none if nothing refills. -/
def intervalsElapsed (lastUpdate interval : JsNumber) (now : ℚ) : JsNumber :=
  if 0 < fin now - lastUpdate ∧ 0 < interval then ((fin now - lastUpdate) / interval).floor else 0

/-- Credits whole intervals and clamps to the ceiling. -/
def BucketState.refill (state : BucketState) (config : TokenBucketConfig) (now : ℚ) : BucketState :=
  let belowCap := decide (state.tokens < config.maxTokens)
  let elapsed := intervalsElapsed state.lastUpdate config.interval now
  let tokens := if 0 < elapsed then state.tokens + elapsed * config.tokensToAdd else state.tokens
  let lastUpdate := if 0 < elapsed then state.lastUpdate + elapsed * config.interval else state.lastUpdate
  -- Clamped unconditionally: `maxTokens` can shrink underneath a stocked bucket.
  if config.maxTokens < tokens then
    ⟨config.maxTokens, lastUpdate, state.overflow + (tokens - config.maxTokens), state.fills + 1⟩
  else if belowCap && decide (config.maxTokens ≤ tokens) then
    ⟨tokens, lastUpdate, state.overflow, state.fills + 1⟩
  else ⟨tokens, lastUpdate, state.overflow, state.fills⟩

/-- `refill`: the stored bucket refilled to `now`. -/
def refill (s : State) (key : String) (config : TokenBucketConfig) (now : ℚ) : BucketState :=
  (storedBucket s key config now).refill config now

def BucketState.fields (state : BucketState) : List (String × Field) :=
  [("tokens", .num state.tokens), ("lastUpdate", .num state.lastUpdate),
    ("overflow", .num state.overflow), ("fills", .num state.fills)]

/-- `writeBucket`; `config` is omitted only for a bucket written full. -/
def writeBucket (key : String) (state : BucketState) (ttlSeconds : JsNumber)
    (config : Option TokenBucketConfig) (now : ℚ) : Op Unit := do
  let ttl ← Op.lift (normalizeTtlSeconds (config.elim ttlSeconds (bucketTtl ttlSeconds)))
  Op.modify fun s => s.setFields key now state.fields
  expire key ttl now

/-- The bucket takes an `epoch` the first time a mark is written against it. -/
def takeEpoch (s : State) (key : String) (now : ℚ) : State :=
  if (s.hget key "epoch" now).isSome then s
  else { (s.setFields key now [("epoch", .num (s.epochs + 1 : ℚ))]) with epochs := s.epochs + 1 }

/-- What a claim took and how far the bucket had got, for settlement. -/
def markFields (s : State) (key : String) (cost : JsNumber) (state : BucketState) (now : ℚ) :
    List (String × Field) :=
  [("claimed", .num cost), ("overflow", .num state.overflow), ("fills", .num state.fills),
    ("generation", .num (parseFiniteStored (s.hget key "generation" now) 0)),
    ("epoch", (s.hget key "epoch" now).getD (.text "")),
    ("forgiven", .num (parseFiniteStored (s.hget key "forgiven" now) 0))]

def writeMark (key : String) (mark : String × ℚ) (cost : JsNumber) (state : BucketState) (now : ℚ) :
    Op Unit := do
  Op.modify fun s => takeEpoch s key now
  Op.modify fun s => s.setFields (claimMarkKey key mark.1) now (markFields s key cost state now)
  expire (claimMarkKey key mark.1) mark.2 now

/-- The spend of every admitting path: the balance, then the mark if one was asked for. -/
def spendTokens (key : String) (state : BucketState) (cost ttlSeconds : JsNumber)
    (config : TokenBucketConfig) (mark : Option (String × ℚ)) (now : ℚ) : Op Unit := do
  writeBucket key { state with tokens := state.tokens - cost } ttlSeconds (some config) now
  match mark with
  | none => pure ()
  | some mark => writeMark key mark cost state now

/-- Milliseconds until the shortfall is covered, less the time already served. -/
def tokenWait (state : BucketState) (cost : JsNumber) (config : TokenBucketConfig) (now : ℚ) : JsNumber :=
  JsNumber.max 0 (((cost - state.tokens) / config.tokensToAdd).ceil * config.interval - (fin now - state.lastUpdate))

def acquireTokens (key : String) (cost : JsNumber) (config : TokenBucketConfig) (mark : Option ClaimMark)
    (now : ℚ) : Op AcquireTokensResult := do
  let claim ← Op.lift (claimMark mark)
  match unusableBudget cost config with
  | some error => pure { acquired := false, waitTime := some 0, remainingTokens := 0, error := some error }
  | none =>
    let s ← Op.read
    let state := refill s key config now
    if coversCost state.tokens cost config.maxTokens then
      spendTokens key state cost 86400 config claim now
      pure { acquired := true, remainingTokens := state.tokens - cost }
    else
      writeBucket key state 86400 (some config) now
      pure { acquired := false, waitTime := some (tokenWait state cost config now), remainingTokens := state.tokens }

def getTokenBucketState (s : State) (key : String) (config : TokenBucketConfig) (now : ℚ) :
    JsNumber × JsNumber :=
  ((refill s key config now).tokens, (refill s key config now).lastUpdate)

def bumpGeneration (s : State) (key : String) (now : ℚ) : State :=
  s.setFields key now [("generation", .num (parseFiniteStored (s.hget key "generation" now) 0 + 1))]

/-- The balance overwritten, its counters carried over. -/
def overwriteTokens (key : String) (tokens : JsNumber) (config : Option TokenBucketConfig) (now : ℚ) :
    Op Unit := do
  let s ← Op.read
  writeBucket key
    { tokens := tokens, lastUpdate := fin now,
      overflow := parseFiniteStored (s.hget key "overflow" now) 0,
      fills := parseFiniteStored (s.hget key "fills" now) 0 } 86400 config now
  Op.modify fun s => bumpGeneration s key now

def resetTokenBucket (key : String) (maxTokens : JsNumber) (now : ℚ) : Op Unit :=
  overwriteTokens key maxTokens none now

/-- Not refilled first: a freeze empties what is there. -/
def emptyTokenBucket (key : String) (config : TokenBucketConfig) (now : ℚ) : Op Unit := do
  let s ← Op.read
  let tokens := parseFiniteStored (s.hget key "tokens" now) 0
  overwriteTokens key (tokens.min 0) (if (unusableBudget 0 config).isSome then none else some config) now

structure SettleInput where
  tokens : JsNumber
  maxTokens : JsNumber
  maxDebt : JsNumber
  actual : JsNumber
  claimed : JsNumber
  overflowNow : JsNumber
  overflowAtClaim : JsNumber
  forgivenNow : JsNumber
  forgivenAtClaim : JsNumber
  fillsNow : JsNumber
  fillsAtClaim : JsNumber
  generationNow : JsNumber
  generationAtClaim : JsNumber
  epochNow : Field
  epochAtClaim : Field

structure SettleOutcome where
  applied : JsNumber
  unapplied : JsNumber
  forgiven : JsNumber

/-- The bucket was recreated or overwritten since the claim. -/
def SettleInput.bucketGone (input : SettleInput) : Bool :=
  decide (input.epochAtClaim = .text "") || decide (input.epochNow ≠ input.epochAtClaim) ||
    decide (input.generationNow ≠ input.generationAtClaim) ||
    decide (input.overflowNow < input.overflowAtClaim) || decide (input.fillsNow < input.fillsAtClaim)

/-- How much to take from the balance now: positive debits, negative credits. -/
def settleAmount (input : SettleInput) : SettleOutcome :=
  let none : SettleOutcome := ⟨0, 0, input.forgivenNow⟩
  if input.bucketGone then none
  else
    let delta := input.actual - input.claimed
    if 0 < delta then
      let slack := JsNumber.max 0
        (input.overflowNow - input.overflowAtClaim - (input.forgivenNow - input.forgivenAtClaim))
      let used := delta.min slack
      let owed := delta - used
      let maxDebt := if input.maxDebt.isFinite ∧ 0 < input.maxDebt then input.maxDebt else 0
      let room := JsNumber.max 0 (input.tokens + maxDebt)
      let applied := owed.min room
      ⟨applied, owed - applied, input.forgivenNow + used⟩
    else if delta < 0 ∧ input.fillsNow = input.fillsAtClaim then
      ⟨-(-delta).min (JsNumber.max 0 (input.maxTokens - input.tokens)), 0, input.forgivenNow⟩
    else none

/-- What a settlement of `spec` reads off the refilled bucket and the mark. -/
def settleInput (s : State) (spec : SettleSpec) (mark : Fields) (state : BucketState) (now : ℚ) :
    SettleInput where
  tokens := state.tokens
  maxTokens := spec.config.maxTokens
  maxDebt := spec.maxDebt
  actual := spec.actual
  claimed := parseFiniteStored (mark.lookup "claimed") 0
  overflowNow := state.overflow
  overflowAtClaim := parseFiniteStored (mark.lookup "overflow") 0
  forgivenNow := parseFiniteStored (s.hget spec.key "forgiven" now) 0
  forgivenAtClaim := parseFiniteStored (mark.lookup "forgiven") 0
  fillsNow := state.fills
  fillsAtClaim := parseFiniteStored (mark.lookup "fills") 0
  generationNow := parseFiniteStored (s.hget spec.key "generation" now) 0
  generationAtClaim := parseFiniteStored (mark.lookup "generation") 0
  epochNow := (s.hget spec.key "epoch" now).getD (.text "")
  epochAtClaim := (mark.lookup "epoch").getD (.text "")

/-- The balance corrected for one consumed mark. -/
def applySettlement (spec : SettleSpec) (mark : Fields) (now : ℚ) : Op SettleResult := do
  let s ← Op.read
  match s.hget spec.key "tokens" now with
  | none => pure ⟨spec.key, true, 0, 0⟩
  | some _ =>
    let state := refill s spec.key spec.config now
    let outcome := settleAmount (settleInput s spec mark state now)
    writeBucket spec.key { state with tokens := state.tokens - outcome.applied } 86400 (some spec.config) now
    Op.modify fun s => s.setFields spec.key now [("forgiven", .num outcome.forgiven)]
    pure ⟨spec.key, true, outcome.applied, outcome.unapplied⟩

/-- One entry of `settleTokens`. A settlement the backend cannot act on leaves
the mark for one that can. -/
def settleSpec (spec : SettleSpec) (now : ℚ) : Op SettleResult := do
  let s ← Op.read
  match s.hash (claimMarkKey spec.key spec.markId) now with
  | none => pure ⟨spec.key, false, 0, 0⟩
  | some mark =>
    if ¬ spec.actual.isFinite ∨ spec.actual < 0 ∨ (unusableBudget 0 spec.config).isSome then
      pure ⟨spec.key, false, 0, 0⟩
    else
      Op.modify fun s => s.delete (claimMarkKey spec.key spec.markId)
      applySettlement spec mark now

def settleTokens (now : ℚ) : List SettleSpec → Op (List SettleResult)
  | [] => pure []
  | spec :: rest => do
    let result ← settleSpec spec now
    let results ← settleTokens now rest
    pure (result :: results)

/-- `creditTokens`, the body of `refundTokens`. -/
def creditTokens (s : State) (key : String) (cost maxTokens : JsNumber) (freezeKey : Option String)
    (now : ℚ) : State :=
  if ¬ usableCost cost then s
  else if freezeKey.elim false fun k => decide (k ≠ "") && s.freezeEmptiedBucket k now then s
  else match s.hget key "tokens" now with
    | none => s
    | some tokens =>
      s.setFields key now [("tokens", .num (maxTokens.min (parseFiniteStored (some tokens) 0 + cost)))]

def refundTokens (key : String) (cost maxTokens : JsNumber) (freezeKey : Option String) (now : ℚ) : Op Unit :=
  Op.modify fun s => creditTokens s key cost maxTokens freezeKey now

def tryAdmitImmediately (queueKey bucketKey freezeKey : String) (cost : JsNumber)
    (config : TokenBucketConfig) (ttl : JsNumber) (mark : Option ClaimMark) (now : ℚ) : Op Bool := do
  let keyTtl ← Op.lift (normalizeStateTtlSeconds ttl)
  let claim ← Op.lift (claimMark mark)
  let s ← Op.read
  if (unusableBudget cost config).isSome ∨ s.sorted queueKey now ≠ [] ∨ s.freezeBlocksAdmission freezeKey now then
    pure false
  else
    let state := refill s bucketKey config now
    if coversCost state.tokens cost config.maxTokens then
      spendTokens bucketKey state cost keyTtl config claim now
      pure true
    else
      writeBucket bucketKey state keyTtl (some config) now
      pure false

end Dianemo
