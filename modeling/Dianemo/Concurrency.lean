import Dianemo.TokenBucket

namespace Dianemo

open JsNumber

structure ConcurrencyConfig where
  maxConcurrency : JsNumber
  requestTtl : JsNumber

structure AcquireConcurrencyResult where
  acquired : Bool
  currentConcurrency : JsNumber
  error : Option String := none

def usableConcurrency (maxConcurrency : JsNumber) : Bool :=
  maxConcurrency.isFinite && decide (0 < maxConcurrency)

def usableRequestTtl (requestTtl : JsNumber) : Bool := requestTtl.isFinite && decide (0 < requestTtl)

/-- Why no slot can be given, if none can: the three guards every slot claim opens with. -/
def unusableSlot (cost : JsNumber) (config : ConcurrencyConfig) : Option String :=
  if ¬ usableConcurrency config.maxConcurrency then
    some "maxConcurrency must be a finite number greater than 0"
  else if ¬ usableCost cost then some "cost must be a finite number that is not negative"
  else if ¬ usableRequestTtl config.requestTtl then
    some "requestTtl must be a finite number greater than 0"
  else none

/-- The ledger's companion, a hash of what each slot costs. -/
def costsKey (key : String) : String := key ++ ":costs"

/-- The slots of a ledger taken at or before `expireTime`. -/
def staleSlots (z : Scores) (expireTime : JsNumber) : List String :=
  (z.entries.filter fun e => decide (fin e.2 ≤ expireTime)).map Sigma.fst

def eraseAll {β : String → Type} (m : AList β) (members : List String) : AList β :=
  members.foldl (fun m member => m.erase member) m

/-- `reapConcurrency`: drops slots older than the TTL, the equivalent of a crashed holder. -/
def reapConcurrency (s : State) (key : String) (expireTime : JsNumber) (now : ℚ) : State :=
  match s.live key now with
  | none => s
  | some e =>
    match e.zset with
    | none => s
    | some z =>
      let stale := staleSlots z expireTime
      let slots := s.put key { e with zset := some (eraseAll z stale) }
      let costs := match slots.live (costsKey key) now with
        | none => slots
        | some c => slots.put (costsKey key) { c with hash := c.hash.map (eraseAll · stale) }
      (costs.dropIfEmpty key).dropIfEmpty (costsKey key)

/-- What one slot is counted at; the Lua defaults to 1 here. -/
def slotCost (costs : Option Fields) (member : String) : JsNumber :=
  parseFiniteStored (costs.bind (·.lookup member)) 1

def sumCosts (costs : Option Fields) (members : List String) : JsNumber :=
  members.foldl (fun total member => total + slotCost costs member) 0

/-- Total cost in flight, ignoring `exceptId` so a resubmit is not counted twice. -/
def concurrencyCost (s : State) (key exceptId : String) (now : ℚ) : JsNumber :=
  match s.zset key now with
  | none => 0
  | some z => sumCosts (s.hash (costsKey key) now) (z.keys.filter (· ≠ exceptId))

def claimSlot (key requestId : String) (cost : JsNumber) (keyTtl : JsNumber) (now : ℚ) : Op Unit := do
  let ttl ← Op.lift (normalizeTtlSeconds keyTtl)
  Op.modify fun s => s.setScore key now requestId now
  Op.modify fun s => s.setFields (costsKey key) now [(requestId, .num cost)]
  expire key ttl now
  expire (costsKey key) ttl now

def acquireConcurrency (key : String) (cost : JsNumber) (requestId : String) (config : ConcurrencyConfig)
    (now : ℚ) : Op AcquireConcurrencyResult := do
  match unusableSlot cost config with
  | some error => pure { acquired := false, currentConcurrency := 0, error := some error }
  | none =>
    Op.modify fun s => reapConcurrency s key (fin now - config.requestTtl) now
    let s ← Op.read
    let currentCost := concurrencyCost s key requestId now
    if config.maxConcurrency < currentCost + cost then
      pure { acquired := false, currentConcurrency := currentCost }
    else
      claimSlot key requestId cost 86400 now
      pure { acquired := true, currentConcurrency := currentCost + cost }

/-- Claims only while the queue entry is still `inProgress`, in one operation. -/
def acquireQueuedConcurrency (key metadataKey : String) (cost : JsNumber) (requestId : String)
    (config : ConcurrencyConfig) (now : ℚ) : Op AcquireConcurrencyResult := do
  match unusableSlot cost config with
  | some error => pure { acquired := false, currentConcurrency := 0, error := some error }
  | none =>
    Op.modify fun s => reapConcurrency s key (fin now - config.requestTtl) now
    let s ← Op.read
    if s.hget metadataKey "status" now ≠ some (.text "inProgress") then
      pure { acquired := false, currentConcurrency := concurrencyCost s key requestId now }
    else acquireConcurrency key cost requestId config now

def tryAdmitConcurrency (queueKey concurrencyKey freezeKey : String) (cost : JsNumber) (requestId : String)
    (config : ConcurrencyConfig) (ttl : JsNumber) (now : ℚ) : Op Bool := do
  let keyTtl ← Op.lift (normalizeStateTtlSeconds ttl)
  let s ← Op.read
  if s.sorted queueKey now ≠ [] ∨ (unusableSlot cost config).isSome ∨ s.freezeBlocksAdmission freezeKey now then
    pure false
  else
    Op.modify fun s => reapConcurrency s concurrencyKey (fin now - config.requestTtl) now
    let s ← Op.read
    if config.maxConcurrency < concurrencyCost s concurrencyKey requestId now + cost then pure false
    else
      claimSlot concurrencyKey requestId cost keyTtl now
      pure true

/-- `releaseSlot`, the body of `releaseConcurrency`. -/
def releaseSlot (s : State) (key requestId : String) (now : ℚ) : State :=
  let slots := match s.live key now with
    | none => s
    | some e => s.put key { e with zset := e.zset.map fun z : Scores => z.erase requestId }
  let costs := match slots.live (costsKey key) now with
    | none => slots
    | some c => slots.put (costsKey key) { c with hash := c.hash.map fun h : Fields => h.erase requestId }
  (costs.dropIfEmpty key).dropIfEmpty (costsKey key)

def releaseConcurrency (key requestId : String) (now : ℚ) : Op Unit :=
  Op.modify fun s => releaseSlot s key requestId now

def touchConcurrency (key slotId : String) (ttlSeconds : JsNumber) (now : ℚ) : Op Bool := do
  let ttl ← Op.lift (normalizeStateTtlSeconds ttlSeconds)
  let s ← Op.read
  if ((s.zset key now).bind (·.lookup slotId)).isNone then pure false
  else
    Op.modify fun s => s.setScore key now slotId now
    expire key ttl now
    let s ← Op.read
    if (s.live (costsKey key) now).isSome then expire (costsKey key) ttl now
    pure true

def touchClaimMark (bucketKey markId : String) (ttlSeconds : JsNumber) (now : ℚ) : Op Bool := do
  let ttl ← Op.lift (normalizeStateTtlSeconds ttlSeconds)
  let s ← Op.read
  if (s.live (claimMarkKey bucketKey markId) now).isNone then pure false
  else
    expire (claimMarkKey bucketKey markId) ttl now
    pure true

/-- `getConcurrencyState`: the unlapsed slots by score then by bytes, and what they cost. -/
def getConcurrencyState (key : String) (requestTtl : JsNumber) (now : ℚ) : Op (JsNumber × List String) := do
  if ¬ requestTtl.isFinite then
    Op.lift (.error ⟨"requestTtl must be a finite number, received ", requestTtl, ""⟩)
  else
    let s ← Op.read
    let active := match s.zset key now with
      | none => []
      | some z => (((z.entries.map fun e => (e.1, e.2)).filter fun e => decide (fin now - requestTtl < fin e.2)).insertionSort
          State.scoreLe).map Prod.fst
    pure (sumCosts (s.hash (costsKey key) now) active, active)

end Dianemo
