import Dianemo.Election
import Dianemo.HandleRequest

namespace Dianemo

open JsNumber

/-- How often an owner announces a completion again before it gives up on it. -/
def maxCompletionForwards : ℕ := 30

/-- How many completions a client remembers having seen applied. -/
def maxCompletedRequestIds : ℕ := 10000

namespace RequestDoneData

/-- `completionIdOf`; numbers are printed by `print`. -/
def completionId (print : JsNumber → String) (data : RequestDoneData) : String :=
  let status := match data.responseStatus with
    | .success => "success"
    | .failure => "failure"
    | .retry => "retry"
  let id := s!"{data.requestId}:{print data.retries}:{status}"
  match data.phase with
  | none => id
  | some .headers => id ++ ":headers"
  | some .end => id ++ ":end"

def freezeDuration (data : RequestDoneData) : JsNumber := data.freezeTime.getD data.waitTime

def freezesClient (data : RequestDoneData) : Bool :=
  data.freezeClient && decide (data.freezeDuration ≠ 0) && decide (data.freezeDuration ≠ nan)

/-- `data.grantId`, where it is truthy. -/
def grant (data : RequestDoneData) : Option String := data.grantId.filter fun id => id ≠ ""

def isRetry (data : RequestDoneData) : Bool := data.responseStatus = .retry

end RequestDoneData

/-- What is left to do of a completion, as the client that holds it knows. -/
structure PendingRequestDone where
  data : RequestDoneData
  queueHandled : Bool := false
  ownTypeHandled : Bool := false
  freezeHandled : Bool := false
  thawHandled : Bool := false
  forwardDueAt : ℚ
  forwards : ℕ := 0

inductive CompletionStep where
  /-- The entry leaves the queue. -/
  | queue
  | freeze
  /-- Type-specific cleanup: the slot is released. -/
  | ownType
  | thaw
  deriving DecidableEq

/-- Where a flush waits, by the call it waits for. -/
inductive CompletionStage where
  | removeRequestFromQueue
  | getRequestFromQueue
  /-- `removeFrozenGrantId`, for a retrying probe. -/
  | removeFrozenGrantId
  /-- `backend.now`, the first call of `handleFreezeRequests`. -/
  | now
  | armFreeze
  | handleFreezeOwnTypeRequests
  | addFrozenGrantId
  | publishFreezeStateChanged
  | handleOwnTypeRequestDone
  | updateThawProgress
  | clearFrozenGrantId
  | returned
  /-- The flush settles, its completion applied or its failure logged. -/
  | settles
  deriving DecidableEq

/-- A stretch of `handleRequestDone` between two waits: the record it leaves,
the step it saw through, and the next wait. -/
structure Stretch where
  record : PendingRequestDone
  ran : Option CompletionStep
  stage : CompletionStage

namespace PendingRequestDone

def handled (p : PendingRequestDone) : CompletionStep → Bool
  | .queue => p.queueHandled
  | .freeze => p.freezeHandled
  | .ownType => p.ownTypeHandled
  | .thaw => p.thawHandled

def handle (p : PendingRequestDone) : CompletionStep → PendingRequestDone
  | .queue => { p with queueHandled := true }
  | .freeze => { p with freezeHandled := true }
  | .ownType => { p with ownTypeHandled := true }
  | .thaw => { p with thawHandled := true }

def forwarded (p : PendingRequestDone) (dueAt : ℚ) : PendingRequestDone :=
  { p with forwards := p.forwards + 1, forwardDueAt := dueAt }

def isThawRequest (p : PendingRequestDone) : Bool := p.data.isThawRequest

/-- What is left of `handleRequestDone` from its last step on; the parts before it follow, each up to its first wait. -/
def thawPart (p : PendingRequestDone) (ran : Option CompletionStep) : Stretch :=
  if p.isThawRequest && !p.thawHandled then ⟨p, ran, .updateThawProgress⟩ else ⟨p, ran, .returned⟩

def ownTypePart (p : PendingRequestDone) (ran : Option CompletionStep) : Stretch :=
  if p.ownTypeHandled then p.thawPart ran else ⟨p, ran, .handleOwnTypeRequestDone⟩

def freezePart (p : PendingRequestDone) (ran : Option CompletionStep) : Stretch :=
  if !p.freezeHandled && p.data.freezesClient then ⟨p, ran, .now⟩
  else if !p.data.freezesClient then (p.handle .freeze).ownTypePart ran
  else p.ownTypePart ran

def queuePart (p : PendingRequestDone) : Stretch :=
  if !p.queueHandled && !p.data.isRetry && !p.data.fastPath then ⟨p, none, .removeRequestFromQueue⟩
  else if !p.queueHandled && p.data.isRetry && p.data.grant.isSome then
    if p.data.freezesClient then (p.handle .queue).freezePart none else ⟨p, none, .getRequestFromQueue⟩
  else if p.data.fastPath || p.data.grant.isNone then (p.handle .queue).freezePart none
  else p.freezePart none

/-- A streamed response announces twice; each half leaves the other's steps alone. -/
def halved (p : PendingRequestDone) : PendingRequestDone :=
  match p.data.phase with
  | none => p
  | some .headers => (p.handle .ownType).handle .freeze
  | some .end => (p.handle .queue).handle .thaw

/-- `handleRequestDone`, up to its first wait. -/
def handleRequestDone (p : PendingRequestDone) : Stretch := p.halved.queuePart

def armed (p : PendingRequestDone) : Stretch := (p.handle .freeze).ownTypePart (some .freeze)

/-- What is left of `handleFreezeRequests` from the announcement on. -/
def announcePart (p : PendingRequestDone) : Stretch :=
  if p.data.isRateLimited then p.armed else ⟨p, none, .publishFreezeStateChanged⟩

def markPart (p : PendingRequestDone) : Stretch :=
  if p.data.grant.isSome then ⟨p, none, .addFrozenGrantId⟩ else p.announcePart

def thawed (p : PendingRequestDone) : Stretch := ⟨p.handle .thaw, some .thaw, .returned⟩

end PendingRequestDone

/-- What the backend answers: whether the entry read or removed was a thaw
probe, where one was asked for. -/
inductive CompletionReply where
  | failed
  | ok (wasThawRequest : Bool)
  deriving DecidableEq

/-- `handleRequestDone` goes on from a wait; a failure is thrown. -/
def CompletionStage.resume (p : PendingRequestDone) : CompletionStage → CompletionReply → Option Stretch
  -- errors of this one are swallowed where it is called
  | .publishFreezeStateChanged, _ => some p.armed
  | _, .failed => none
  | .removeRequestFromQueue, .ok wasThawRequest =>
    some (PendingRequestDone.freezePart
      { p with data.isThawRequest := p.data.isThawRequest || wasThawRequest, queueHandled := true } (some .queue))
  | .getRequestFromQueue, .ok isThawRequest =>
    some (if isThawRequest then ⟨p, none, .removeFrozenGrantId⟩ else (p.handle .queue).freezePart none)
  | .removeFrozenGrantId, .ok _ => some ((p.handle .queue).freezePart none)
  | .now, .ok _ => some ⟨p, none, .armFreeze⟩
  | .armFreeze, .ok _ => some (if p.data.isRateLimited then ⟨p, none, .handleFreezeOwnTypeRequests⟩ else p.markPart)
  | .handleFreezeOwnTypeRequests, .ok _ => some p.markPart
  | .addFrozenGrantId, .ok _ => some p.announcePart
  | .handleOwnTypeRequestDone, .ok _ => some ((p.handle .ownType).thawPart (some .ownType))
  | .updateThawProgress, .ok _ => some (if p.data.grant.isSome then ⟨p, none, .clearFrozenGrantId⟩ else p.thawed)
  | .clearFrozenGrantId, .ok _ => some p.thawed
  | .returned, _ => none
  | .settles, _ => none

/-- A flush under way: its number among the client's, and the record it applies. -/
structure CompletionFlush where
  number : ℕ
  completionId : String
  record : ℕ
  stage : CompletionStage

/-- A loop of `flushPendingRequestDone`, waiting for a flush with the rest of its snapshot. -/
structure FlushLoop where
  awaits : ℕ
  rest : List (String × ℕ)

/-- A loop of `forwardPendingRequestDone`, waiting for an announcement: when it
started and the entry it has come to. -/
structure ForwardLoop where
  now : ℚ
  reached : ℕ

/-- What a client has done so far about completions. Records are told apart by number. -/
inductive CompletionOutput where
  | stored (completionId : String) (record : ℕ) (role : ClientRole)
  /-- The last call of a step was acknowledged. -/
  | ran (completionId : String) (record : ℕ) (step : CompletionStep)
  | applied (completionId : String) (record : ℕ)
  | acknowledged (completionId ownerId : String)
  | announced (data : RequestDoneData)
  | reannounced (completionId : String) (record : ℕ) (data : RequestDoneData)
  | gaveUp (completionId : String) (record : ℕ)
  | dropped (completionId : String) (record : ℕ)
  | forgot (completionId : String)

/-- What a client with no budget owner and no replacement knows of completions.
`records` holds every record it made; maps and sets are in insertion order. -/
structure Completions where
  role : ClientRole
  records : List PendingRequestDone
  pendingRequestDone : List (String × ℕ)
  completionFlushes : List CompletionFlush
  flushes : ℕ
  completedRequestIds : List String
  flushLoops : List FlushLoop
  forwardLoops : List ForwardLoop
  log : List CompletionOutput

/-- What does not change about such a client. -/
structure CompletionClient where
  instanceId : String
  healthCheckIntervalMs : ℚ
  print : JsNumber → String

namespace Completions

def constructed : Completions := ⟨.worker, [], [], [], 0, [], [], [], []⟩

def emit (s : Completions) (out : CompletionOutput) : Completions := { s with log := s.log ++ [out] }

def add (s : Completions) (completionId : String) (p : PendingRequestDone) : Completions :=
  { s with
    records := s.records ++ [p]
    pendingRequestDone := s.pendingRequestDone ++ [(completionId, s.records.length)]
    log := s.log ++ [.stored completionId s.records.length s.role] }

def forget (s : Completions) (completionId : String) : Completions :=
  { s with pendingRequestDone := s.pendingRequestDone.filter fun entry => entry.1 ≠ completionId }

def rememberCompleted (s : Completions) (completionId : String) : Completions :=
  let ids := if completionId ∈ s.completedRequestIds then s.completedRequestIds else
    s.completedRequestIds ++ [completionId]
  match ids with
  | oldest :: rest =>
    if maxCompletedRequestIds < ids.length ∧ oldest ≠ "" then
      { s with completedRequestIds := rest }.emit (.forgot oldest)
    else { s with completedRequestIds := ids }
  | [] => { s with completedRequestIds := ids }

/-- A completion leaves the pending ones for the remembered ones. -/
def handleRequestDoneApplied (s : Completions) (completionId : String) : Completions :=
  (s.forget completionId).rememberCompleted completionId

def without (s : Completions) (completionId : String) : Completions :=
  { s with completionFlushes := s.completionFlushes.filter fun flush => flush.completionId ≠ completionId }

/-- All that is left of a flush is to settle. -/
def settling (s : Completions) (flush : CompletionFlush) : Completions :=
  { s with completionFlushes := (s.without flush.completionId).completionFlushes ++
    [{ flush with stage := .settles }] }

def settleStretch (s : Completions) (flush : CompletionFlush) (stretch : Stretch) : Completions :=
  { s with
    records := s.records.set flush.record stretch.record
    completionFlushes := s.completionFlushes ++ [{ flush with stage := stretch.stage }]
    log := s.log ++ stretch.ran.toList.map fun step => .ran flush.completionId flush.record step }

/-- `flushPendingRequestDone`, for the entries left of its snapshot, up to its next wait. -/
def flushEntries (s : Completions) : List (String × ℕ) → Completions
  | [] => s
  | (completionId, record) :: rest =>
    match s.completionFlushes.find? fun flush => flush.completionId = completionId with
    | some existing => { s with flushLoops := s.flushLoops ++ [⟨existing.number, rest⟩] }
    | none =>
      match s.records[record]? with
      | none => flushEntries s rest
      | some p =>
        settleStretch { s with flushes := s.flushes + 1, flushLoops := s.flushLoops ++ [⟨s.flushes, rest⟩] }
          ⟨s.flushes, completionId, record, .returned⟩ p.handleRequestDone

end Completions

namespace CompletionClient

variable (client : CompletionClient)

def storePendingRequestDone (now : ℚ) (data : RequestDoneData) (s : Completions) : Completions :=
  let completionId := data.completionId client.print
  if completionId ∈ s.completedRequestIds ∨ completionId ∈ s.pendingRequestDone.map Prod.fst then s
  else s.add completionId { data, forwardDueAt := now + client.healthCheckIntervalMs }

/-- The copy is of another replica's completion. -/
def foreign (s : Completions) (record : ℕ) : Bool :=
  s.records[record]?.any fun p => p.data.ownerId ≠ client.instanceId

/-- Drops the copies of other replicas' completions; their owners announce them again. -/
def dropRetainedCopies (s : Completions) : Completions :=
  { s with
    pendingRequestDone := s.pendingRequestDone.filter fun entry => !client.foreign s entry.2
    log := s.log ++ (s.pendingRequestDone.filter fun entry => client.foreign s entry.2).map fun entry =>
      .dropped entry.1 entry.2 }

/-- The controller's word to a completion's owner, never sent to itself. -/
def acknowledgeCompletion (data : RequestDoneData) (completionId : String) (s : Completions) : Completions :=
  if data.ownerId = client.instanceId then s else s.emit (.acknowledged completionId data.ownerId)

/-- Records a completion; only the controller applies it. -/
def finalizeOwnedRequest (now : ℚ) (data : RequestDoneData) (s : Completions) : Completions :=
  let completionId := data.completionId client.print
  if completionId ∈ s.completedRequestIds then
    if s.role = .controller then client.acknowledgeCompletion data completionId s else s
  else
    let s := client.storePendingRequestDone now data s
    if s.role = .controller then s.flushEntries
      (s.pendingRequestDone.filter fun entry => entry.1 = completionId) else s

/-- `forwardPendingRequestDone`, for the entries from one on, up to its next wait. -/
def forwardEntries (started : ℚ) (s : Completions) : List (String × ℕ) → Completions
  | [] => s
  | (completionId, record) :: rest =>
    match s.records[record]? with
    | none => forwardEntries started s rest
    | some p =>
      if started < p.forwardDueAt then forwardEntries started s rest
      else if maxCompletionForwards ≤ p.forwards then
        forwardEntries started ((s.handleRequestDoneApplied completionId).emit (.gaveUp completionId record)) rest
      else
        { s with
          records := s.records.set record (p.forwarded (started + client.healthCheckIntervalMs))
          forwardLoops := s.forwardLoops ++ [⟨started, record⟩]
          log := s.log ++ [.reannounced completionId record p.data] }

def forwardPendingRequestDone (now : ℚ) (s : Completions) : Completions :=
  let s := client.dropRetainedCopies s
  client.forwardEntries now s s.pendingRequestDone

/-- The tick of the health check, from the role it found on. -/
def tick (now : ℚ) (s : Completions) : Completions :=
  if s.role = .controller then s.flushEntries s.pendingRequestDone else client.forwardPendingRequestDone now s

def updateRole (role : ClientRole) (s : Completions) : Completions :=
  if role = s.role then s
  else
    let s := { s with role := role }
    if role = .controller then
      let s := client.dropRetainedCopies s
      s.flushEntries s.pendingRequestDone
    else s

/-- A flush goes on: what it waited for has answered, or it has settled. -/
def flushGoesOn (completionId : String) (reply : CompletionReply) (s : Completions) : Completions :=
  match s.completionFlushes.find? fun flush => flush.completionId = completionId with
  | none => s
  | some flush =>
    match s.records[flush.record]?, flush.stage with
    | none, _ => s
    | some _, .settles => s.without completionId
    | some p, .returned =>
      let s := (s.emit (.applied completionId flush.record)).handleRequestDoneApplied completionId
      (client.acknowledgeCompletion p.data completionId s).settling flush
    | some p, stage =>
      match stage.resume p reply with
      | some stretch => (s.without completionId).settleStretch flush stretch
      | none => s.settling flush

/-- A loop goes on with the rest of its snapshot once the flush it waited for has settled. -/
def loopGoesOn (place : ℕ) (s : Completions) : Completions :=
  match s.flushLoops[place]? with
  | none => s
  | some loop =>
    if s.completionFlushes.any fun flush => flush.number = loop.awaits then s
    else
      let s := s.flushEntries loop.rest
      { s with flushLoops := s.flushLoops.eraseIdx place }

/-- An announcement has been published, or could not be; the entries recorded meanwhile are gone through too. -/
def forwardGoesOn (place : ℕ) (published : Bool) (s : Completions) : Completions :=
  match s.forwardLoops[place]? with
  | none => s
  | some loop =>
    let s := if published then
        client.forwardEntries loop.now s (s.pendingRequestDone.filter fun entry => loop.reached < entry.2)
      else s
    { s with forwardLoops := s.forwardLoops.eraseIdx place }

end CompletionClient

/-- What may happen to such a client, in any order. -/
inductive CompletionEvent where
  /-- `publishRequestDone` announces a completion of the client's own. -/
  | announce (data : RequestDoneData)
  | finalizeOwnedRequest (data : RequestDoneData)
  | handleRequestDoneApplied (completionId : String)
  | updateRole (role : ClientRole)
  | tick
  | flushGoesOn (completionId : String) (reply : CompletionReply)
  | loopGoesOn (place : ℕ)
  | forwardGoesOn (place : ℕ) (published : Bool)

def CompletionClient.step (client : CompletionClient) (now : ℚ) (e : CompletionEvent)
    (s : Completions) : Completions :=
  match e with
  | .announce data => s.emit (.announced data)
  | .finalizeOwnedRequest data => client.finalizeOwnedRequest now data s
  | .handleRequestDoneApplied completionId => s.handleRequestDoneApplied completionId
  | .updateRole role => client.updateRole role s
  | .tick => client.tick now s
  | .flushGoesOn completionId reply => client.flushGoesOn completionId reply s
  | .loopGoesOn place => CompletionClient.loopGoesOn place s
  | .forwardGoesOn place published => client.forwardGoesOn place published s

end Dianemo
