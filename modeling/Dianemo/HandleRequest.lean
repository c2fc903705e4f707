import Dianemo.Drain
import Dianemo.Library.Logs

namespace Dianemo

open JsNumber Resumption

inductive RequestStatus where
  | inQueue
  | inProgress
  deriving DecidableEq

/-- What an attempt reads of the config it sends, which an interceptor may replace. -/
structure RequestConfig where
  grantId : Option String
  settle : Bool
  settleStream : Bool
  /-- `responseType: "stream"`. -/
  stream : Bool

/-- `RequestMetadata` with what it says of the attempt itself. -/
structure AttemptMetadata extends RequestMetadata where
  status : RequestStatus
  explicitCost : Option RequestCost
  fastPath : Bool
  claimedKeys : Option (List String)

/-- One `handleRequest` call's request, which all its attempts share. -/
structure Request where
  id : String
  clientName : String
  requestName : String
  priority : JsNumber
  cost : RequestCost
  explicitCost : Option RequestCost
  timestamp : JsNumber
  ownerId : String
  config : RequestConfig
  retries : ℕ := 0
  status : RequestStatus := .inQueue
  isThawRequest : Bool := false
  fastPath : Bool := false
  claimedKeys : Option (List String) := none
  abandonmentPublished : Bool := false

structure RequestRetryData where
  retry : Bool
  message : String
  isRateLimited : Bool
  waitTime : JsNumber
  freezeClient : Bool
  freezeTime : Option JsNumber := none

inductive ResponseStatus where
  | success
  | failure
  | retry
  deriving DecidableEq

inductive DonePhase where
  | headers
  | end
  deriving DecidableEq

structure RequestDoneData extends AttemptMetadata where
  responseStatus : ResponseStatus
  waitTime : JsNumber
  freezeTime : Option JsNumber
  isRateLimited : Bool
  freezeClient : Bool
  httpStatus : Option ℕ
  phase : Option DonePhase

namespace Request

def settles (request : Request) : Bool := request.config.settle ||
    request.config.settleStream || request.config.stream

def getMetadata (request : Request) : AttemptMetadata where
  requestId := request.id
  clientName := request.clientName
  requestName := request.requestName
  priority := request.priority
  cost := request.cost
  retries := .fin request.retries
  timestamp := request.timestamp
  grantId := request.config.grantId
  isThawRequest := request.isThawRequest
  ownerId := request.ownerId
  settles := request.settles
  status := request.status
  explicitCost := request.explicitCost
  fastPath := request.fastPath
  claimedKeys := request.claimedKeys

def getRequestDoneData (request : Request) (retryData : Option RequestRetryData := none)
    (httpStatus : Option ℕ := none) (phase : Option DonePhase := none) : RequestDoneData where
  toAttemptMetadata := request.getMetadata
  responseStatus := match retryData with
    | none => .success
    | some data => if data.retry then .retry else .failure
  waitTime := retryData.elim 0 RequestRetryData.waitTime
  freezeTime := retryData.bind RequestRetryData.freezeTime
  isRateLimited := retryData.elim false RequestRetryData.isRateLimited
  freezeClient := retryData.elim false RequestRetryData.freezeClient
  httpStatus := httpStatus
  phase := phase

end Request

/-- The entry an attempt asks to be queued as. -/
def AttemptMetadata.queued (metadata : AttemptMetadata) : QueuedRequest where
  requestId := metadata.requestId
  clientName := metadata.clientName
  requestName := metadata.requestName
  status := "pending"
  priority := metadata.priority
  cost := metadata.cost
  retries := metadata.retries
  timestamp := metadata.timestamp
  grantId := metadata.grantId
  isThawRequest := metadata.isThawRequest
  ownerId := metadata.ownerId
  settles := metadata.settles

/-- What is thrown in an attempt. Anything that is none of dianemo's own
errors is read as the upstream's, for what it carries. -/
inductive RequestFailure where
  | requestAborted
  | requestTimeout
  | handlerStopped
  | noResponse
  | thrown (status : Option ℕ) (code : Option String) (retryAfterMs : Option JsNumber)
  deriving DecidableEq

namespace RequestFailure

def status : RequestFailure → Option ℕ
  | thrown status _ _ => status
  | _ => none

def code : RequestFailure → Option String
  | thrown _ code _ => code
  | _ => none

def retryAfterMs : RequestFailure → Option JsNumber
  | thrown _ _ retryAfterMs => retryAfterMs
  | _ => none

end RequestFailure

inductive ErrorDecision where
  | fail
  | retry (freeze : Bool) (freezeMs : Option JsNumber)

/-- What `handleRequest` reads of its client. -/
structure Sender where
  maxRetries : JsNumber
  retry429s : Bool
  retry5xxs : Bool
  retryStatusCodes : List ℕ
  exponential : Bool
  hasClassifier : Bool
  hasRetryHandler : Bool
  hasInterceptor : Bool
  getRetryBackoffBaseTime : Bool → JsNumber
  getFreezeBaseTime : Bool → JsNumber

/-- What the listeners of a queued attempt may be told, at most one of them. -/
inductive Heard where
  | ready (metadata : AttemptMetadata)
  | aborted
  | timedOut
  | failed (error : RequestFailure)

structure Response where
  status : ℕ
  /-- The body is a readable stream. -/
  readable : Bool

/-- Where an attempt leaves its own memory, to wait or to be told something. -/
inductive RequestCall where
  | aborted
  | admissionHalted
  | waitOutBackoff (waitMs : JsNumber)
  | tryAdmitImmediately (metadata : AttemptMetadata)
  | addRequestToQueue (request : QueuedRequest)
  | updateRequestInQueue (requestId : String) (updates : RequestUpdates)
  | notifyRequestAdded
  /-- Whether a listener was told something during the wait before. -/
  | heard
  | readyPromise
  | requestInterceptor (config : RequestConfig)
  | authenticate (metadata : AttemptMetadata)
  | httpRequest (config : RequestConfig)
  | releaseUnusedAdmission (metadata : AttemptMetadata)
  | publish (data : RequestDoneData)
  | finalizeOwnedRequest (data : RequestDoneData)
  | settle
  | settleAttempt (metadata : AttemptMetadata) (settled : RequestCost)
  | classifyError (error : RequestFailure)
  | retryHandler (error : RequestFailure)
  | responseHooks (response : Response)
  | relay (metadata : AttemptMetadata) (response : Response)

abbrev RequestReply : RequestCall → Type
  | .aborted => Bool
  | .admissionHalted => Bool
  | .waitOutBackoff _ => Unit
  | .tryAdmitImmediately _ => Bool × Option (List String)
  | .addRequestToQueue _ => Bool
  | .updateRequestInQueue _ _ => Unit
  | .notifyRequestAdded => Unit
  | .heard => Option Heard
  | .readyPromise => Heard
  | .requestInterceptor _ => RequestConfig
  | .authenticate _ => Unit
  | .httpRequest _ => Response
  | .releaseUnusedAdmission _ => Unit
  | .publish _ => Unit
  | .finalizeOwnedRequest _ => Unit
  | .settle => Option RequestCost
  | .settleAttempt _ _ => Unit
  | .classifyError _ => Option ErrorDecision
  | .retryHandler _ => Bool
  | .responseHooks _ => Unit
  | .relay _ _ => Unit

abbrev Sending := Act Request RequestCall RequestReply RequestFailure

namespace HandleRequest

/-- A call whose failure is thrown into the attempt. -/
def ask (c : RequestCall) : Sending (RequestReply c) := Act.call c

/-- A call whose failure the attempt swallows. -/
def tryAsk (c : RequestCall) : Sending (Option (RequestReply c)) := Act.attempt c

/-- A call with what came back, thrown or not. -/
def reply (c : RequestCall) : Sending (Except RequestFailure (RequestReply c)) :=
  tryCatch (do return .ok (← ask c)) fun error => return .error error

def throwIf (failed : Bool) (error : RequestFailure) : Sending Unit := if failed then throw error else return

def provided (condition : Bool) (x : Sending Unit) : Sending Unit := if condition then x else return

/-- `signal?.aborted`. -/
def aborted : Sending Bool := do return (← tryAsk .aborted).getD false

def admissionHalted : Sending Bool := do return (← tryAsk .admissionHalted).getD false

/-- The two checks an attempt makes before each of its steps. -/
def assertGoesOn : Sending Unit := do
  throwIf (← aborted) .requestAborted
  throwIf (← admissionHalted) .handlerStopped

/-- The completion is retained by this replica and announced to the others. -/
def publishAbandoned (message : String) : Sending Unit := do
  let request ← Act.locals
  let data := request.getRequestDoneData (some { retry := false, message, isRateLimited := false, waitTime := 0, freezeClient := false })
  let _ ← tryAsk (.finalizeOwnedRequest data)
  let _ ← tryAsk (.publish data)

/-- Hands back everything admission granted, for a request that will not run. -/
def releaseAbandonedRequest : Sending Unit := do
  let request ← Act.locals
  provided (!request.abandonmentPublished) do
    Act.update fun request => { request with abandonmentPublished := true }
    let metadata := request.getMetadata
    provided (metadata.status = .inProgress) do
      let _ ← tryAsk (.releaseUnusedAdmission metadata)
    publishAbandoned "Request abandoned before dispatch"

/-- Sleeps out a retry's back-off. -/
def waitOutBackoff (waitMs : JsNumber) : Sending Unit := do
  assertGoesOn
  ask (.waitOutBackoff waitMs)

/-- A listener of the admission, told something: how its promise settles. -/
def onHeard : Heard → Sending (Except RequestFailure Unit)
  | .ready metadata => do
    Act.update fun request =>
      { request with isThawRequest := metadata.isThawRequest, claimedKeys := metadata.claimedKeys, status := .inProgress }
    return .ok ()
  | .aborted => do
    publishAbandoned "Request aborted while queued"
    Act.update fun request => { request with abandonmentPublished := true }
    return .error .requestAborted
  | .timedOut => do
    publishAbandoned "Request timed out waiting for admission"
    Act.update fun request => { request with abandonmentPublished := true }
    return .error .requestTimeout
  | .failed error => return .error error

/-- The listeners, after a wait: once told something they hear no more. -/
def listen : Option (Except RequestFailure Unit) → Sending (Option (Except RequestFailure Unit))
  | some settled => return some settled
  | none => do
    match ← tryAsk .heard with
    | some (some heard) => return some (← onHeard heard)
    | _ => return none

/-- A call made while the listeners are up. -/
def whileListening (c : RequestCall) (settled : Option (Except RequestFailure Unit)) :
    Sending (RequestReply c × Option (Except RequestFailure Unit)) := do
  let replied ← reply c
  let settled ← listen settled
  match replied with
  | .ok answer => return (answer, settled)
  | .error error => throw error

/-- The outcome of `readyPromise`. -/
def settle : Option (Except RequestFailure Unit) → Sending (Except RequestFailure Unit)
  | some settled => return settled
  | none => do onHeard (← ask .readyPromise)

/-- `return readyPromise`. -/
def readyPromise (settled : Option (Except RequestFailure Unit)) : Sending Unit := do
  match ← settle settled with
  | .ok _ => return
  | .error error => throw error

/-- The half of `waitForRequestReady` that queues the request. -/
def waitForTurn (metadata : AttemptMetadata) : Sending Unit := do
  let request ← Act.locals
  let (created, settled) ← whileListening (.addRequestToQueue metadata.queued) none
  if 0 < request.retries ∧ created = false then
    let (_, settled) ← whileListening (.updateRequestInQueue request.id { status := some "pending" }) settled
    let (_, settled) ← whileListening .notifyRequestAdded settled
    readyPromise settled
  else readyPromise settled

def waitForRequestReady : Sending Unit := do
  Act.update fun request => { request with fastPath := false, claimedKeys := none }
  let request ← Act.locals
  let metadata := request.getMetadata
  assertGoesOn
  let admission ← ask (.tryAdmitImmediately metadata)
  let gone ← aborted
  if admission.1 then
    if gone then
      let _ ← tryAsk (.releaseUnusedAdmission { metadata with claimedKeys := admission.2 })
      throw .requestAborted
    else
      Act.update fun request => { request with fastPath := true, claimedKeys := admission.2, status := .inProgress }
  else
    throwIf gone .requestAborted
    waitForTurn metadata

def intercept (sender : Sender) : Sending Unit :=
  provided sender.hasInterceptor do
    let request ← Act.locals
    let config ← ask (.requestInterceptor request.config)
    Act.update fun request => { request with config }

def handlePreRequest (sender : Sender) : Sending Unit := do
  waitForRequestReady
  intercept sender
  let request ← Act.locals
  ask (.authenticate request.getMetadata)

/-- Announces a completion, in so many tries at most. -/
def announce (data : RequestDoneData) : ℕ → Sending Unit
  | 0 => return
  | tries + 1 => do
    match ← tryAsk (.publish data) with
    | some _ => return
    | none => announce data tries

/-- The announcement first, then this replica's own cleanup. -/
def publishRequestDone (data : RequestDoneData) : Sending Unit := do
  announce data 3
  let _ ← tryAsk (.finalizeOwnedRequest data)

def runSettle : Sending Unit := do
  let request ← Act.locals
  provided request.config.settle do
    match ← tryAsk .settle with
    | some (some settled) => do
      let _ ← tryAsk (.settleAttempt request.getMetadata settled)
    | _ => return

end HandleRequest

def maxTimerMs : JsNumber := 2147483647

/-- A delay usable as a timer. -/
def clampDelay (ms : JsNumber) : JsNumber :=
  if ms.isFinite = false ∨ ms ≤ 0 then 0 else min (ceil ms) maxTimerMs

namespace HandleRequest

variable (sender : Sender)

/-- How long to wait before the next attempt, and how long a freeze lasts. -/
def handleBackoff (retries : ℕ) (data : RequestRetryData) (floorMs : JsNumber) : RequestRetryData :=
  let multiplier : JsNumber := .fin ((Nat.max 1 retries : ℚ) ^ (if sender.exponential then 2 else 1))
  { data with
    waitTime := max floorMs (multiplier * sender.getRetryBackoffBaseTime data.isRateLimited)
    freezeTime := some (max floorMs (multiplier * sender.getFreezeBaseTime data.isRateLimited))
    message := if data.retry then data.message ++ " | Will retry..." else data.message }

/-- `classifyError`: a classifier that throws leaves the decision to the built-in rules. -/
def classifyError (error : RequestFailure) : Sending (Option ErrorDecision) := do
  if sender.hasClassifier then return (← tryAsk (.classifyError error)).join
  else return none

def retryableCodes : List String := ["ECONNRESET", "ETIMEDOUT", "ECONNABORTED"]

/-- The failure as the built-in rules class it, short of the consumer's handler. -/
def builtInRules (error : RequestFailure) : Option RequestRetryData :=
  let data : RequestRetryData :=
    { retry := true, message := "", isRateLimited := false, waitTime := 0, freezeClient := false }
  if error.status = some 429 ∧ sender.retry429s then
    some { data with message := "Rate Limited", isRateLimited := true, freezeClient := true }
  else if error.status.any (fun status => decide (500 ≤ status)) ∧ sender.retry5xxs then
    some { data with message := "Server Error", freezeClient := true }
  else if error.status.any (fun status => status ≠ 0 && sender.retryStatusCodes.contains status) then
    some { data with message := "Client Wants Retry By Status" }
  else if error.code.any retryableCodes.contains then
    some { data with message := "Server Error", freezeClient := true }
  else none

/-- The failure classed, and the wait it asks for at least. -/
def classify (error : RequestFailure) (outOfRetries : Bool) : Sending (RequestRetryData × JsNumber) := do
  let floorMs := error.retryAfterMs.getD 0
  let data : RequestRetryData :=
    { retry := true, message := "", isRateLimited := false, waitTime := 0, freezeClient := false }
  match ← classifyError sender error with
  | some .fail => return ({ data with message := "Classified as terminal", retry := false }, floorMs)
  | some (.retry false _) => return ({ data with message := "Classified as retryable" }, floorMs)
  | some (.retry true freezeMs) =>
    return ({ data with message := "Classified as retryable", freezeClient := true, isRateLimited := error.status = some 429 },
      max floorMs (clampDelay (freezeMs.getD 0)))
  | none =>
    match builtInRules sender error with
    | some data => return (data, floorMs)
    | none =>
      if outOfRetries = false ∧ sender.hasRetryHandler then
        match ← tryAsk (.retryHandler error) with
        | some true => return ({ data with message := "Client Wants Retry" }, floorMs)
        | some false => return ({ data with retry := false }, floorMs)
        | none => return ({ data with message := "Retry handler failed", retry := false }, floorMs)
      else return ({ data with retry := false }, floorMs)

/-- No retry once they are used up, however the failure is classed. -/
def capRetries (outOfRetries : Bool) (data : RequestRetryData) : RequestRetryData :=
  let reached := "Maximum number of retries reached."
  if outOfRetries then
    { data with retry := false, message := if data.message = "" then reached else data.message ++ " | " ++ reached }
  else data

def handleRetry (error : RequestFailure) : Sending RequestRetryData := do
  let request ← Act.locals
  let outOfRetries := decide (sender.maxRetries ≤ .fin request.retries)
  let classified ← classify sender error outOfRetries
  let data := capRetries outOfRetries classified.1
  if data.retry then
    Act.update fun request => { request with retries := request.retries + 1 }
    return handleBackoff sender (request.retries + 1) data classified.2
  else return if data.freezeClient then handleBackoff sender request.retries data classified.2 else data

/-- What came back was an error: the wait before the next attempt, or the error again. -/
def handleError (error : RequestFailure) : Sending RequestRetryData := do
  runSettle
  let retryData ← handleRetry sender error
  let request ← Act.locals
  provided retryData.retry (ask (.updateRequestInQueue request.id { retries := some (.fin request.retries) }))
  publishRequestDone (request.getRequestDoneData (some retryData) error.status)
  if retryData.retry then return retryData else throw error

def handleResponse (response : Response) : Sending Unit := do
  runSettle
  let request ← Act.locals
  publishRequestDone (request.getRequestDoneData none (some response.status))
  let _ ← tryAsk (.responseHooks response)

/-- The half of a streamed response that comes before its body. -/
def handleStreamedResponse (response : Response) : Sending Unit := do
  let request ← Act.locals
  provided (!request.fastPath) (publishRequestDone (request.getRequestDoneData none (some response.status) (some .headers)))
  let _ ← tryAsk (.responseHooks response)
  let _ ← tryAsk (.relay request.getMetadata response)

/-- Everything of a round that comes before its dispatch. -/
def beforeDispatch (backoffMs : JsNumber) : Sending Unit := do
  provided (0 < backoffMs) (waitOutBackoff backoffMs)
  handlePreRequest sender
  assertGoesOn

/-- The dispatch, and what came of it: the wait before the next round, or `none` after a response. -/
def dispatch : Sending (Option JsNumber) := do
  let request ← Act.locals
  match ← reply (.httpRequest request.config) with
  | .error error => do
    let retryData ← handleError sender error
    return some retryData.waitTime
  | .ok response =>
    if request.config.stream ∧ response.readable then do
      handleStreamedResponse response
      return none
    else do
      handleResponse response
      return none

/-- One round of `handleRequest`. -/
def round (backoffMs : JsNumber) : Sending (Option JsNumber) := do
  Act.update fun request => { request with status := .inQueue }
  tryCatch (beforeDispatch sender backoffMs) fun error => do
    releaseAbandonedRequest
    throw error
  dispatch sender

end HandleRequest

end Dianemo
