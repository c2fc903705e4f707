import Dianemo.Thaw

namespace Dianemo

open JsNumber

inductive RequestCost where
  | amount (x : JsNumber)
  | perLimit (amounts : List (String × JsNumber))
  deriving DecidableEq

structure QueuedRequest where
  requestId : String
  clientName : String
  requestName : String
  status : String
  priority : JsNumber
  cost : RequestCost
  retries : JsNumber
  timestamp : JsNumber
  grantId : Option String
  isThawRequest : Bool
  ownerId : String
  settles : Bool := false
  claimedAt : Option ℚ := none
  deriving DecidableEq

/-- The fields of an entry that `updateRequest` writes. -/
structure RequestUpdates where
  status : Option String := none
  retries : Option JsNumber := none
  priority : Option JsNumber := none
  isThawRequest : Option Bool := none

/-- Where a queue lives. No entry's key is the queue's own. -/
structure QueueKeys where
  queueKey : String
  metadataKeyPrefix : String
  apart : ∀ tail, queueKey ≠ metadataKeyPrefix ++ ":" ++ tail

namespace QueueKeys

def metadataKey (q : QueueKeys) (requestId : String) : String := q.metadataKeyPrefix ++ ":" ++ requestId

/-- Marks an id as removed, so that a later add for it is refused. -/
def tombstoneKey (q : QueueKeys) (requestId : String) : String :=
  q.metadataKeyPrefix ++ ":" ++ requestId ++ ":removed"

end QueueKeys

/-- `QUEUE_CLAIM_LEASE_MS`. -/
def queueClaimLeaseMs : ℚ := 10000

def requestTombstoneTtlSeconds : ℚ := 60

def maxQueuePriority : ℚ := 10

def maxQueueRetries : ℚ := 100

def queueRetryBand : ℚ := 1000000000000

def queuePriorityBand : ℚ := queueRetryBand * (maxQueueRetries + 1)

def queueScoreEpochMs : ℚ := 1767225600000

/-- A number held between two bounds. -/
def JsNumber.clamp (x : JsNumber) (least most : ℚ) : JsNumber := (x.max (fin least)).min (fin most)

/-- `Number.isSafeInteger`. -/
def JsNumber.isSafeInteger : JsNumber → Bool
  | fin q => decide ((⌊q⌋ : ℚ) = q ∧ |q| ≤ maxSafeInteger)
  | _ => false

/-- The score of a priority, a retry count and an arrival, each already in its band. -/
def bandScore (priority retries arrival : JsNumber) : JsNumber :=
  (fin maxQueuePriority - priority) * fin queuePriorityBand +
    (fin maxQueueRetries - retries) * fin queueRetryBand + arrival

def calculateQueueScore (priority retries timestamp : JsNumber) : Except RangeError ℚ :=
  let arrival := timestamp - fin queueScoreEpochMs
  if fin queueRetryBand ≤ arrival then
    .error ⟨"Queue timestamp ", timestamp, " falls outside the version-1 score epoch"⟩
  else
    let score := bandScore (priority.clamp 0 maxQueuePriority) (retries.clamp 0 maxQueueRetries) arrival
    if score.isSafeInteger then .ok score.toRat
    else .error ⟨"Queue timestamp ", timestamp, " cannot be represented without losing ordering precision"⟩

/-- The score `updateRequest` writes: clamped throughout, so it is always finite. -/
def rescore (priority retries timestamp : JsNumber) : ℚ :=
  (bandScore (priority.clamp 0 maxQueuePriority) (retries.clamp 0 maxQueueRetries)
    ((timestamp - fin queueScoreEpochMs).clamp 0 (queueRetryBand - 1))).toRat

def normalizeTombstoneTtl : JsNumber → ℚ
  | fin q => if 0 < q then Min.min (⌈q⌉ : ℚ) redisMaxTtlSeconds else requestTombstoneTtlSeconds
  | posInf => redisMaxTtlSeconds
  | _ => requestTombstoneTtlSeconds

def claimLapsed (claimedAt : Option Field) (now : ℚ) : Bool :=
  decide (fin queueClaimLeaseMs ≤ fin now - parseStoredNumber claimedAt nan)

/-- Whether `getNextRequest` may hand an entry out: pending, or claimed under a
lease that has lapsed. -/
def claimable (status claimedAt : Option Field) (now : ℚ) : Bool :=
  if status = some (.text "pending") then true
  else if status ≠ some (.text "inProgress") then false
  else claimLapsed claimedAt now

section Reading

/-- A sign at the head of a text, and what follows it. -/
def signed : List Char → ℚ × List Char
  | '-' :: rest => (-1, rest)
  | '+' :: rest => (1, rest)
  | text => (1, text)

def digitsValue (digits : List Char) : ℕ := digits.foldl (fun n c => 10 * n + (c.toNat - '0'.toNat)) 0

/-- The whole part of a number as `String` prints it: exponents start at `1e21` and `1e-7`. -/
def printedWhole (q : ℚ) : ℚ :=
  if 10 ^ 21 ≤ q then ⌊q / 10 ^ Nat.log 10 ⌊q⌋.toNat⌋
  else if 0 < q ∧ q < 1 / 10 ^ 6 then ⌊q * 10 ^ Nat.clog 10 ⌈1 / q⌉.toNat⌋
  else ⌊q⌋

/-- The digit before the point where a positive number is printed with an exponent. -/
def leadingDigit (q : ℚ) : ℚ :=
  if 1 ≤ q then ⌊q / 10 ^ Nat.log 10 ⌊q⌋.toNat⌋ else ⌊q * 10 ^ Nat.clog 10 ⌈1 / q⌉.toNat⌋

/-- `parseInt(raw, 10)`. -/
def parseInt : Option Field → JsNumber
  | some (.num (fin q)) => if 0 ≤ q then fin (printedWhole q) else fin (-printedWhole (-q))
  | some (.exponential q) => if 0 ≤ q then fin (leadingDigit q) else fin (-leadingDigit (-q))
  | some (.text s) =>
    let (sign, rest) := signed (s.toList.dropWhile Char.isWhitespace)
    let digits := rest.takeWhile Char.isDigit
    if digits = [] then nan else fin (sign * digitsValue digits)
  | _ => nan

/-- The exponent a text goes on with, if it does. -/
def exponent : List Char → ℤ
  | c :: rest =>
    if c = 'e' ∨ c = 'E' then
      let (sign, rest) := signed rest
      (if sign < 0 then -1 else 1) * (digitsValue (rest.takeWhile Char.isDigit) : ℤ)
    else 0
  | [] => 0

/-- `parseFloat(raw)`. -/
def parseFloat : Option Field → JsNumber
  | some (.num x) => x
  | some (.exponential q) => fin q
  | some (.text s) =>
    let (sign, rest) := signed (s.toList.dropWhile Char.isWhitespace)
    let whole := rest.takeWhile Char.isDigit
    let tail := rest.dropWhile Char.isDigit
    let fraction := if tail.head? = some '.' then tail.tail.takeWhile Char.isDigit else []
    let after := if tail.head? = some '.' then tail.tail.dropWhile Char.isDigit else tail
    if "Infinity".toList.isPrefixOf rest then fin sign * posInf
    else if whole = [] ∧ fraction = [] then nan
    else fin (sign * ((digitsValue whole : ℚ) + digitsValue fraction / 10 ^ fraction.length) * (10 : ℚ) ^ exponent after)
  | _ => nan

/-- `x || fallback` for a number. -/
def JsNumber.orDefault (x fallback : JsNumber) : JsNumber := if x = nan ∨ x = 0 then fallback else x

def parsePriority (raw : Option Field) : JsNumber := parseFiniteStored raw 1

def formatStoredCost : RequestCost → Field
  | .amount x => .num x
  | .perLimit amounts => .record amounts

def parseStoredCost : Option Field → RequestCost
  | some (.record amounts) => .perLimit amounts
  | some (.text s) =>
    if (s.toList.dropWhile Char.isWhitespace).head? = some '\x7b' then .amount nan
    else .amount ((parseFloat (some (.text s))).orDefault 1)
  | raw => .amount ((parseFloat raw).orDefault 1)

/-- A text field, and nothing if it is absent or empty: what `!x` tests. -/
def present : Option Field → Option String
  | some (.text s) => if s = "" then none else some s
  | _ => none

/-- A text field as it stands, empty if absent. -/
def Field.string : Option Field → String
  | some (.text s) => s
  | _ => ""

/-- An entry as it is handed out, unless a field it needs is missing. -/
def toQueued (metadata : Fields) : Option QueuedRequest := do
  let requestId ← present (metadata.lookup "requestId")
  let clientName ← present (metadata.lookup "clientName")
  let requestName ← metadata.lookup "requestName"
  let status ← present (metadata.lookup "status")
  some {
    requestId := requestId
    clientName := clientName
    requestName := Field.string (some requestName)
    status := status
    priority := parsePriority (metadata.lookup "priority")
    cost := parseStoredCost (metadata.lookup "cost")
    retries := (parseInt (metadata.lookup "retries")).orDefault 0
    timestamp := (parseInt (metadata.lookup "timestamp")).orDefault 0
    grantId := present (metadata.lookup "grantId")
    isThawRequest := decide (metadata.lookup "isThawRequest" = some (.text "true"))
    settles := decide (metadata.lookup "settles" = some (.text "true"))
    ownerId := Field.string (metadata.lookup "ownerId")
    claimedAt := match parseStoredNumber (metadata.lookup "claimedAt") nan with
      | fin q => some q
      | _ => none }

end Reading

/-- A flag as the queue's hashes store it. -/
def flagField (b : Bool) : Field := .text (if b then "true" else "false")

/-- The hash `addRequest` writes. -/
def QueuedRequest.fields (request : QueuedRequest) : List (String × Field) :=
  [("requestId", .text request.requestId), ("clientName", .text request.clientName),
    ("requestName", .text request.requestName), ("status", .text request.status),
      ("priority", .num request.priority),
    ("cost", formatStoredCost request.cost), ("retries", .num request.retries),
      ("timestamp", .num request.timestamp),
    ("grantId", .text (request.grantId.getD "")), ("isThawRequest", flagField request.isThawRequest)] ++
    (if request.settles then [("settles", flagField true)] else []) ++ [("ownerId", .text request.ownerId)]

section Operations

variable (q : QueueKeys)

def addRequest (request : QueuedRequest) (ttl : JsNumber) (now : ℚ) : Op Bool := do
  let score ← Op.lift (calculateQueueScore request.priority request.retries request.timestamp)
  let normalizedTtl ← Op.lift (normalizeStateTtlSeconds ttl)
  let s ← Op.read
  if (s.live (q.tombstoneKey request.requestId) now).isSome then pure false
  -- Already queued: adding it again would reset its position.
  else if (s.hash (q.metadataKey request.requestId) now).isSome then pure false
  else
    Op.modify fun s => s.setScore q.queueKey now request.requestId score
    Op.modify fun s => s.setFields (q.metadataKey request.requestId) now request.fields
    expire q.queueKey normalizedTtl now
    expire (q.metadataKey request.requestId) normalizedTtl now
    pure true

/-- Whether `getNextRequest` hands out the entry it has come to. -/
def mayHandOut (s : State) (skipGrantIds skipRequestIds : List String) (now : ℚ) (requestId : String) : Bool :=
  decide (requestId ∉ skipRequestIds) && match s.hash (q.metadataKey requestId) now with
    | none => false
    | some hash =>
      claimable (hash.lookup "status") (hash.lookup "claimedAt") now &&
        (decide (Field.string (hash.lookup "grantId") = "") ||
          decide (Field.string (hash.lookup "grantId") ∉ skipGrantIds)) && (toQueued hash).isSome

/-- The fields a claim writes. A lapsed claim's probe nomination lapses with it. -/
def claimFields (hash : Fields) (now : ℚ) : List (String × Field) :=
  (if hash.lookup "status" = some (.text "pending") then [] else [("isThawRequest", flagField false)]) ++
    [("status", .text "inProgress"), ("claimedAt", .num (fin now))]

def getNextRequest (s : State) (skipGrantIds skipRequestIds : List String) (now : ℚ) :
    Option QueuedRequest × State :=
  match (s.sorted q.queueKey now).find? (mayHandOut q s skipGrantIds skipRequestIds now) with
  | none => (none, s)
  | some requestId =>
    match s.hash (q.metadataKey requestId) now with
    | none => (none, s)
    | some hash =>
      (toQueued (withFields hash (claimFields hash now)),
        s.setFields (q.metadataKey requestId) now (claimFields hash now))

/-- `hash.delete(field)` on a live hash. -/
def State.eraseField (s : State) (key : String) (now : ℚ) (field : String) : State :=
  match s.live key now with
  | none => s
  | some e => s.put key { e with hash := e.hash.map fun h : Fields => h.erase field }

def confirmRequest (s : State) (requestId : String) (claimedAt : JsNumber) (now : ℚ) : Bool × State :=
  match s.hash (q.metadataKey requestId) now with
  | none => (false, s)
  | some hash =>
    if hash.lookup "status" ≠ some (.text "inProgress") then (false, s)
    else if claimedAt = nan ∨ parseStoredNumber (hash.lookup "claimedAt") nan ≠ claimedAt then (false, s)
    -- Refused once lapsed even with nobody yet holding it.
    else if claimLapsed (hash.lookup "claimedAt") now then (false, s)
    else (true, s.eraseField (q.metadataKey requestId) now "claimedAt")

def getRequest (s : State) (requestId : String) (now : ℚ) : Option QueuedRequest :=
  (s.hash (q.metadataKey requestId) now).bind toQueued

/-- A number `updateRequest` acts on: given, and finite. -/
def finiteUpdate : Option JsNumber → Option JsNumber
  | some x => if x.isFinite then some x else none
  | none => none

/-- A status written through `updateRequest` ends any claim. -/
def writeStatus (s : State) (key : String) (status : Option String) (now : ℚ) : State :=
  match status with
  | none => s
  | some status => (s.setFields key now [("status", .text status)]).eraseField key now "claimedAt"

/-- The other fields `updateRequest` writes. -/
def RequestUpdates.fields (updates : RequestUpdates) : List (String × Field) :=
  ((finiteUpdate updates.retries).toList.map fun x => ("retries", .num x)) ++
    ((finiteUpdate updates.priority).toList.map fun x => ("priority", .num x)) ++
    updates.isThawRequest.toList.map fun b => ("isThawRequest", flagField b)

def RequestUpdates.needsScoreUpdate (updates : RequestUpdates) : Bool :=
  (finiteUpdate updates.retries).isSome || (finiteUpdate updates.priority).isSome

def updateRequest (s : State) (requestId : String) (updates : RequestUpdates) (now : ℚ) : State :=
  match s.hash (q.metadataKey requestId) now with
  | none => s
  | some hash =>
    -- The re-score writes the member the entry names, and without one nothing is written.
    if updates.needsScoreUpdate && (hash.lookup "requestId").isNone then s
    else
      let written :=
        (writeStatus s (q.metadataKey requestId) updates.status now).setFields (q.metadataKey requestId) now
        updates.fields
      if updates.needsScoreUpdate then
        written.setScore q.queueKey now (Field.string (hash.lookup "requestId"))
          (rescore (parseStoredNumber (written.hget (q.metadataKey requestId) "priority" now) 1)
            (parseStoredNumber (written.hget (q.metadataKey requestId) "retries" now) 0)
            (parseStoredNumber (written.hget (q.metadataKey requestId) "timestamp" now) 0))
      else written

/-- `this.live(queueKey)?.zset?.delete(requestId)`. -/
def State.eraseScore (s : State) (key : String) (now : ℚ) (member : String) : State :=
  match s.live key now with
  | none => s
  | some e => s.put key { e with zset := e.zset.map fun z : Scores => z.erase member }

/-- The mark is written even when there was nothing to remove. -/
def removeRequest (s : State) (requestId : String) (tombstoneTtlSeconds : JsNumber) (now : ℚ) : Bool × State :=
  let wasThawRequest := decide (s.hget (q.metadataKey requestId) "isThawRequest" now = some (.text "true"))
  let dropped := ((s.eraseScore q.queueKey now requestId).dropIfEmpty q.queueKey).delete (q.metadataKey requestId)
  (wasThawRequest, dropped.put (q.tombstoneKey requestId)
    { str := some "1", expiresAt := some (now + normalizeTombstoneTtl tombstoneTtlSeconds * 1000) })

/-- One member of the sweep: dropped if its metadata is gone or its owner is not alive. -/
def sweepRequest (aliveInstanceIds : List String) (now : ℚ) (s : State) (requestId : String) : State :=
  match s.hget (q.metadataKey requestId) "ownerId" now with
  | none => s.eraseScore q.queueKey now requestId
  | some ownerId =>
    if Field.string (some ownerId) = "" ∨ Field.string (some ownerId) ∉ aliveInstanceIds then
      (s.eraseScore q.queueKey now requestId).delete (q.metadataKey requestId)
    else s

/-- A sweeper that does not find itself alive sweeps nothing. -/
def cleanupOrphanedRequests (s : State) (aliveInstanceIds : List String)
    (currentInstanceId : String) (now : ℚ) : State :=
  if currentInstanceId ∉ aliveInstanceIds then s
  else ((s.sorted q.queueKey now).foldl (sweepRequest q aliveInstanceIds now) s).dropIfEmpty q.queueKey

/-- An in-progress probe that a claim for `grantId` must yield to. A nomination
made under a claim whose lease has lapsed is not one. -/
def isCompetingProbe (s : State) (requestId grantId : String) (anyGrant : Bool) (now : ℚ) : Bool :=
  decide (s.hget (q.metadataKey requestId) "status" now = some (.text "inProgress")) &&
    (anyGrant || decide (Field.string (s.hget (q.metadataKey requestId) "grantId" now) = grantId)) &&
    decide (s.hget (q.metadataKey requestId) "isThawRequest" now = some (.text "true")) &&
    !claimLapsed (s.hget (q.metadataKey requestId) "claimedAt" now) now

/-- Nominates an entry as the one probe of its freeze; `true` is `"started"`. -/
def tryStartThawRequest (s : State) (frozenGrantsKey requestId grantId : String) (anyGrant : Bool)
    (now : ℚ) : Bool × State :=
  let marked := if grantId = "" then s else
    ((do
      Op.modify fun s => s.addMember frozenGrantsKey now grantId
      expire frozenGrantsKey 86400 now : Op Unit).run s).2
  if (marked.sorted q.queueKey now).any fun otherId =>
      decide (otherId ≠ requestId) && isCompetingProbe q marked otherId grantId anyGrant now then (false, marked)
  -- Only an entry that still exists is marked.
  else if (marked.hash (q.metadataKey requestId) now).isNone then (false, marked)
  else (true, marked.setFields (q.metadataKey requestId) now [("isThawRequest", flagField true)])

end Operations

end Dianemo
