import Dianemo.Items
import Dianemo.Library.Resumption

namespace Dianemo

open JsNumber Resumption

/-- What an admitted attempt is told of itself. -/
structure RequestMetadata where
  requestId : String
  clientName : String
  requestName : String
  priority : JsNumber
  cost : RequestCost
  retries : JsNumber
  timestamp : JsNumber
  grantId : Option String
  isThawRequest : Bool
  ownerId : String
  settles : Bool
  deriving DecidableEq

/-- A claim on a client's budgets. -/
inductive BudgetClaim where
  | acquireTokens (key : String) (cost : JsNumber) (config : TokenBucketConfig) (mark : Option ClaimMark)
  | acquireConcurrency (key : String) (cost : JsNumber) (slotId : String) (config : ConcurrencyConfig)
  | acquireQueuedConcurrency (key metadataKey : String) (cost : JsNumber) (slotId : String)
      (config : ConcurrencyConfig)
  | acquireMultiLimit (specs : List MultiLimitSpec)

/-- One call that hands back part of a claim. -/
inductive BudgetRelease where
  | refundTokens (key : String) (cost maxTokens : JsNumber) (freezeKey : Option String)
  | releaseConcurrency (key slotId : String)
  | releaseMultiLimit (specs : List MultiLimitSpec)

structure ClaimResult where
  acquired : Bool
  error : Option String := none

/-- What a cost may be refused for at the current limits. -/
inductive CostProblem where
  | exceedsBudget
  | mismatch
  deriving DecidableEq

/-- What a pass may catch. A backend call that fails throws `failed`. -/
inductive DrainError where
  | requestCost (problem : CostProblem)
  | invalidRequestCost
  | unusableRateLimit
  | clientFrozen
  | failed
  deriving DecidableEq

/-- A client as its drain passes see it: where it keeps its state, and how it
claims from its limits. -/
structure Client where
  instanceId : String
  usesGrantIsolation : Bool
  frozenGrantsKey : String
  freezeStateKey : Option String → String
  metered : Bool
  claimsReleasableCapacity : Bool
  unusableCost : RequestCost → Bool
  claim : RequestMetadata → BudgetClaim
  releaseClaim : RequestMetadata → List BudgetRelease
  tombstoneTtlSeconds : JsNumber

/-- Where a pass leaves its own memory: a backend call, a hand-over, or a
question its process answers (a cost against the limits of the moment, a waiter
to be failed). -/
inductive Call where
  | smembers (key : String)
  | getNextRequest (skipGrantIds skipRequestIds : List String)
  | canProcessRequest (key : String)
  | tryStartThawRequest (requestId grantId : String) (anyGrant : Bool)
  | claim (claim : BudgetClaim)
  | releaseClaim (release : BudgetRelease)
  | releaseUnusedAdmission (release : BudgetRelease)
  | getRequest (requestId : String)
  | confirmRequest (requestId : String) (claimedAt : ℚ)
  | updateRequest (requestId : String) (updates : RequestUpdates)
  | removeRequest (requestId : String)
  | now
  | requestReady (request : RequestMetadata)
  | costProblem (cost : RequestCost)
  | failWaitingRequest (requestId : String)

abbrev Reply : Call → Type
  | .smembers _ => List String
  | .getNextRequest _ _ => Option QueuedRequest
  | .canProcessRequest _ => CanProcess
  | .tryStartThawRequest _ _ _ => Bool
  | .claim _ => ClaimResult
  | .releaseClaim _ => Unit
  | .releaseUnusedAdmission _ => Unit
  | .getRequest _ => Option QueuedRequest
  | .confirmRequest _ _ => Bool
  | .updateRequest _ _ => Unit
  | .removeRequest _ => Bool
  | .now => ℚ
  | .requestReady _ => Unit
  | .costProblem _ => Option CostProblem
  | .failWaitingRequest _ => Bool

inductive Confirmation where
  | unsent
  | sent
  | refused
  deriving DecidableEq

/-- The variables of a pass: what it skips, and where its current claim stands. -/
structure PassLocals where
  blockedGrantIds : List String := []
  skippedRequestIds : List String := []
  confirmation : Confirmation := .unsent
  isThawRequest : Bool := false

/-- `continue` or `break`. -/
inductive Flow where
  | next
  | stop
  deriving DecidableEq

abbrev Pass := Act PassLocals Call Reply DrainError

/-- A call whose failure is thrown into the pass. -/
def ask (c : Call) : Pass (Reply c) := Act.call c

/-- A call whose failure the pass swallows. -/
def tryAsk (c : Call) : Pass (Option (Reply c)) := Act.attempt c

namespace Client

variable (client : Client)

def getFrozenGrantIds : Pass (List String) :=
  if client.usesGrantIsolation then ask (.smembers client.frozenGrantsKey) else pure []

/-- The metadata a claim is carried as, with the probe mark of the moment. -/
def requestMetadata (request : QueuedRequest) (isThawRequest : Bool) : RequestMetadata where
  requestId := request.requestId
  clientName := request.clientName
  requestName := request.requestName
  priority := request.priority
  cost := request.cost
  retries := request.retries
  timestamp := request.timestamp
  grantId := request.grantId
  isThawRequest := isThawRequest
  ownerId := request.ownerId
  settles := request.settles

/-- A backend that stamps no claim grants no lease, so there is nothing to confirm. -/
def confirmRequestInQueue (request : QueuedRequest) : Pass Bool :=
  match request.claimedAt with
  | none => pure true
  | some claimedAt => ask (.confirmRequest request.requestId claimedAt)

def confirm (request : QueuedRequest) : Pass Bool := do
  Act.update fun l => { l with confirmation := .sent }
  let confirmed ← confirmRequestInQueue request
  if confirmed then pure true
  else
    Act.update fun l => { l with confirmation := .refused }
    pure false

/-- The write-back of a claim that was confirmed, or whose confirmation was lost. -/
def writeBack (request : QueuedRequest) : Pass Unit := do
  let l ← Act.locals
  if l.isThawRequest then
    Act.update fun l => { l with isThawRequest := false }
    ask (.updateRequest request.requestId { status := some "pending", isThawRequest := some false })
  else ask (.updateRequest request.requestId { status := some "pending" })

/-- Every write-back confirms first, so that a stale claimer writes nothing
over the entry's new holder. -/
def returnToQueue (request : QueuedRequest) : Pass Unit := do
  let l ← Act.locals
  match l.confirmation with
  | .refused => pure ()
  | .sent => writeBack request
  | .unsent => do
    let confirmed ← confirm request
    if confirmed then writeBack request else pure ()

/-- The calls that hand back a claim, in order. -/
def releaseAll (call : BudgetRelease → Call) : List BudgetRelease → Pass Unit
  | [] => pure ()
  | release :: rest => do
    let _ ← ask (call release)
    releaseAll call rest

/-- Hands back what a pass claimed for an entry a re-read found gone, but only
while its lease is provably unbroken: the clock is read after the entry was. -/
def releaseGoneClaim (request : QueuedRequest) : Pass Unit := do
  let l ← Act.locals
  let release := releaseAll .releaseUnusedAdmission (client.releaseClaim (requestMetadata request l.isThawRequest))
  match request.claimedAt with
  | none => release
  | some claimedAt => do
    match ← tryAsk .now with
    | none => pure ()
    | some now => if queueClaimLeaseMs ≤ now - claimedAt then pure () else release

/-- Books the return for when a freeze lapses; the deadline is read if it is not in hand. -/
def scheduleDrainForFreeze (frozenUntil : Option ℚ) (grantId : Option String) : Pass Unit :=
  match frozenUntil with
  | some _ => do
    let _ ← tryAsk .now
    pure ()
  | none => do
    match ← tryAsk (.canProcessRequest (client.freezeStateKey grantId)) with
    | none => pure ()
    | some state =>
      if state.canProcess then pure ()
      else
        let _ ← tryAsk .now
        pure ()

/-- Fails a waiter this process holds for a request that can never be admitted,
and takes the request out of the queue. -/
def failWaiter (request : QueuedRequest) : Pass Unit := do
  let failed ← ask (.failWaitingRequest request.requestId)
  if failed then
    let _ ← tryAsk (.removeRequest request.requestId)
    pure ()
  else pure ()

/-- The cost is measured again: the limits may have changed since. -/
def failUnsatisfiable (request : QueuedRequest) : Pass Unit := do
  if request.ownerId ≠ client.instanceId then pure ()
  else
    match ← ask (.costProblem request.cost) with
    | none => pure ()
    | some _ => failWaiter request

/-- Whether the client, or with an isolated grant that grant, is frozen right now. -/
def isFrozen (grantId : Option String) : Pass Bool := do
  let res ← ask (.canProcessRequest (client.freezeStateKey grantId))
  pure (!res.canProcess)

/-- A claim handed back because of a freeze; a failure of that is only logged. -/
def releaseFrozenClaim (request : QueuedRequest) : Pass Unit := do
  let l ← Act.locals
  tryCatch (releaseAll .releaseClaim (client.releaseClaim (requestMetadata request l.isThawRequest))) fun _ => pure ()

/-- Claims every budget or none. The wait a decline asks for only books a timer. -/
def tryAcquireTurn (request : QueuedRequest) : Pass Bool := do
  let l ← Act.locals
  if ¬ client.metered then pure true
  else if client.unusableCost request.cost then throw .invalidRequestCost
  else
    match ← ask (.costProblem request.cost) with
    | some problem => throw (.requestCost problem)
    | none =>
      -- A 429 can land on another request between admission and here.
      let frozen ← client.isFrozen request.grantId
      if frozen then throw .clientFrozen
      else
        let claimed ← ask (.claim (client.claim (requestMetadata request l.isThawRequest)))
        if claimed.error.isSome then throw .unusableRateLimit
        else if ¬ claimed.acquired then pure false
        else
          -- The freeze may have landed during the claim.
          let frozen ← client.isFrozen request.grantId
          if frozen then
            client.releaseFrozenClaim request
            throw .clientFrozen
          else pure true

/-- How the loop goes on after a head that is declined: past it for clients
that meter their grants apart, out of the loop for the rest. -/
def afterDecline (request : QueuedRequest) : Pass Flow := do
  if client.usesGrantIsolation then
    match request.grantId with
    | some grantId =>
      Act.update fun l => { l with blockedGrantIds := grantId :: l.blockedGrantIds }
      pure .next
    | none =>
      Act.update fun l => { l with skippedRequestIds := request.requestId :: l.skippedRequestIds }
      pure .next
  else pure .stop

def skip (request : QueuedRequest) : Pass Unit :=
  Act.update fun l => { l with skippedRequestIds := request.requestId :: l.skippedRequestIds }

/-- The exit for a request the freeze refuses. -/
def declineFrozen (request : QueuedRequest) (frozenUntil : Option ℚ) : Pass Flow := do
  returnToQueue request
  match ← ask (.costProblem request.cost) with
  | some _ => do
    skip request
    client.failUnsatisfiable request
    pure .next
  | none => do
    client.scheduleDrainForFreeze frozenUntil request.grantId
    client.afterDecline request

/-- A re-read of the entry finds it gone; a read that failed is no such evidence. -/
def foundGone (request : QueuedRequest) : Pass Bool := do
  if client.claimsReleasableCapacity then
    match ← tryAsk (.getRequest request.requestId) with
    | some none => pure true
    | _ => pure false
  else pure false

/-- Re-read, confirm and hand over: the way out of the loop for a request that got its turn. -/
def dispatch (request : QueuedRequest) : Pass Flow := do
  let gone ← client.foundGone request
  if gone then
    client.releaseGoneClaim request
    pure .next
  else
    let confirmed ← confirm request
    if ¬ confirmed then
      let gone ← client.foundGone request
      if gone then
        client.releaseGoneClaim request
        pure .next
      else pure .next
    else
      let l ← Act.locals
      let _ ← ask (.requestReady (requestMetadata request l.isThawRequest))
      pure .next

/-- A claim that got past the freeze: the turn, and then the hand-over. -/
def takeTurn (request : QueuedRequest) : Pass Flow := do
  let acquired ← client.tryAcquireTurn request
  if acquired then client.dispatch request
  else
    returnToQueue request
    client.afterDecline request

/-- The `try` block of the loop. -/
def admission (request : QueuedRequest) : Pass Flow := do
  let res ← ask (.canProcessRequest (client.freezeStateKey request.grantId))
  if ¬ res.canProcess then client.declineFrozen request res.frozenUntil
  else if res.isThawRequest then
    let started ← ask (.tryStartThawRequest request.requestId
      (if client.usesGrantIsolation then request.grantId.getD "" else "") (!client.usesGrantIsolation))
    if started then
      Act.update fun l => { l with isThawRequest := true }
      client.takeTurn request
    else
      -- Waiting for a probe that is already running, whose end re-enters the loop.
      returnToQueue request
      pure .stop
  else client.takeTurn request

/-- The `catch` block of the loop. -/
def recover (request : QueuedRequest) (error : DrainError) : Pass Flow := do
  tryCatch (returnToQueue request) fun _ => pure ()
  match error with
  | .requestCost _ => do
    skip request
    client.failUnsatisfiable request
    pure .next
  | .invalidRequestCost => do
    skip request
    if request.ownerId = client.instanceId then failWaiter request
    pure .next
  | .clientFrozen => do
    client.scheduleDrainForFreeze none request.grantId
    pure .stop
  | _ => pure .stop

/-- The `try` statement of the loop, for a claim just taken. -/
def serve (request : QueuedRequest) : Pass Flow := do
  Act.update fun l => { l with confirmation := .unsent, isThawRequest := request.isThawRequest }
  tryCatch (client.admission request) (client.recover request)

/-- One turn of the loop of `processRequests`. -/
def drainOnce : Pass Flow := do
  let frozenGrantIds ← client.getFrozenGrantIds
  let l ← Act.locals
  let next ← ask (.getNextRequest (frozenGrantIds ++ l.blockedGrantIds) l.skippedRequestIds)
  match next with
  | none => pure .stop
  | some request => client.serve request

/-- A pass between two turns: the variables it goes on with, or nothing once it is over. -/
def round (l : PassLocals) : Program Call Reply DrainError (Option PassLocals) :=
  (client.drainOnce.run l).bind fun
    | (.ok .next, l) => .done (some l)
    | _ => .done none

/-- `processRequests`, from its first turn. -/
def processRequests : Program Call Reply DrainError (Option PassLocals) := client.round {}

end Client

/-- The sole limit of a client, a `concurrencyLimit`: where a grant's slots are
kept, what a cost takes of them, and how a retry count prints. -/
structure SlotLimit where
  getSlotKey : Option String → String
  costFor : RequestCost → JsNumber
  config : ConcurrencyConfig
  print : JsNumber → String

/-- Each attempt claims and releases a slot of its own, so a retry cannot
release its predecessor's. -/
def SlotLimit.getSlotId (limit : SlotLimit) (requestId : String) (retries : JsNumber) : String :=
  if retries = 0 then requestId else requestId ++ ":retry:" ++ limit.print retries

/-- The client with that limit, on a backend with `acquireQueuedConcurrency`. -/
def Client.withSlots (client : Client) (q : QueueKeys) (limit : SlotLimit) : Client :=
  { client with
    metered := true
    claimsReleasableCapacity := true
    claim := fun request => .acquireQueuedConcurrency (limit.getSlotKey request.grantId)
      (q.metadataKey request.requestId)
      (limit.costFor request.cost) (limit.getSlotId request.requestId request.retries) limit.config
    releaseClaim := fun request =>
      [.releaseConcurrency (limit.getSlotKey request.grantId) (limit.getSlotId request.requestId request.retries)] }

end Dianemo
