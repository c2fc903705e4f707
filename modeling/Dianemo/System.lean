import Dianemo.Entries
import Dianemo.Protocol
import Dianemo.Library.Timed

namespace Dianemo

open JsNumber Resumption

section Calls

/-- What a backend operation answers a pass: a throw is a failed call. -/
def answer {α β : Type} (tell : α → β) : Except RangeError α × State → Except DrainError β × State
  | (.ok a, s) => (.ok (tell a), s)
  | (.error _, s) => (.error .failed, s)

def BudgetClaim.exec (now : ℚ) (s : State) : BudgetClaim → Except DrainError ClaimResult × State
  | .acquireTokens key cost config mark =>
    answer (fun res => ⟨res.acquired, res.error⟩) ((Dianemo.acquireTokens key cost config mark now).run s)
  | .acquireConcurrency key cost slotId config =>
    answer (fun res => ⟨res.acquired, res.error⟩) ((Dianemo.acquireConcurrency key cost slotId config now).run s)
  | .acquireQueuedConcurrency key metadataKey cost slotId config =>
    answer (fun res => ⟨res.acquired, res.error⟩)
      ((Dianemo.acquireQueuedConcurrency key metadataKey cost slotId config now).run s)
  | .acquireMultiLimit specs => answer (fun res => ⟨res.acquired, res.error⟩)
    ((Dianemo.acquireMultiLimit specs now).run s)

def BudgetRelease.exec (now : ℚ) (s : State) : BudgetRelease → Except DrainError Unit × State
  | .refundTokens key cost maxTokens freezeKey =>
    answer id ((Dianemo.refundTokens key cost maxTokens freezeKey now).run s)
  | .releaseConcurrency key slotId => answer id ((Dianemo.releaseConcurrency key slotId now).run s)
  | .releaseMultiLimit specs => answer id ((Dianemo.releaseMultiLimit specs now).run s)

def smembers (s : State) (key : String) (now : ℚ) : List String :=
  match (s.live key now).bind Entry.set with
  | none => []
  | some members => members.sort (· ≤ ·)

/-- What the process itself answers a pass. -/
structure Outlook where
  costProblem : Option CostProblem := none
  waiterFailed : Bool := false

/-- A call as the backend carries it out at one instant, and its reply. -/
def Call.exec (q : QueueKeys) (client : Client) (outlook : Outlook) (now : ℚ) (s : State) :
    (c : Call) → Except DrainError (Reply c) × State
  | .smembers key => (.ok (Dianemo.smembers s key now), s)
  | .getNextRequest skipGrantIds skipRequestIds =>
    let out := Dianemo.getNextRequest q s skipGrantIds skipRequestIds now
    (.ok out.1, out.2)
  | .canProcessRequest key => (.ok (Dianemo.canProcessRequest s key now), s)
  | .tryStartThawRequest requestId grantId anyGrant =>
    let out := Dianemo.tryStartThawRequest q s client.frozenGrantsKey requestId grantId anyGrant now
    (.ok out.1, out.2)
  | .claim budget => budget.exec now s
  | .releaseClaim release => release.exec now s
  | .releaseUnusedAdmission release => release.exec now s
  | .getRequest requestId => (.ok (Dianemo.getRequest q s requestId now), s)
  | .confirmRequest requestId claimedAt =>
    let out := Dianemo.confirmRequest q s requestId (fin claimedAt) now
    (.ok out.1, out.2)
  | .updateRequest requestId updates => (.ok (), Dianemo.updateRequest q s requestId updates now)
  | .removeRequest requestId =>
    let out := Dianemo.removeRequest q s requestId client.tombstoneTtlSeconds now
    (.ok out.1, out.2)
  | .now => (.ok now, s)
  | .requestReady _ => (.ok (), s)
  | .costProblem _ => (.ok outlook.costProblem, s)
  | .failWaitingRequest _ => (.ok outlook.waiterFailed, s)

/-- The budgets and freezes a call writes to lie outside the queue. -/
def Call.Apart (q : QueueKeys) (client : Client) (now : ℚ) (s : State) : Call → Prop
  | .tryStartThawRequest _ _ _ => client.frozenGrantsKey ∉ q.keys
  | .claim budget => Keeps q.keys now s (budget.exec now s).2
  | .releaseClaim release => Keeps q.keys now s (release.exec now s).2
  | .releaseUnusedAdmission release => Keeps q.keys now s (release.exec now s).2
  | _ => True

end Calls

/-- What becomes of a call: it is carried out and answered, or fails before or after it took effect. -/
inductive Fate where
  | answered
  | failedBefore
  | failedAfter
  deriving DecidableEq

/-- Where an entry stands by what took effect on it. -/
inductive Phase (ι : Type) where
  | idle
  | claimed (pass : ι) (since : ℚ)
  | confirmed (pass : ι) (since : ℚ)
  | handed (pass : ι)
  deriving DecidableEq

/-- An attempt handed over to its owner. -/
structure Dispatch (ι : Type) where
  request : RequestMetadata
  pass : ι
  /-- Its pass got `"started"` for it. -/
  started : Bool

/-- What took effect in a run so far. No pass and no owner reads it. -/
structure Record (ι : Type) where
  /-- The pass's current claim was confirmed, -/
  landed : ι → Bool
  /-- and it was handed over or written back. -/
  spent : ι → Bool
  phase : String → Phase ι
  /-- The pass an entry was last handed out to. -/
  claimant : String → Option ι
  /-- How often an entry was handed over since it was last made pending. -/
  handed : String → ℕ
  /-- The attempts handed over and not completed, -/
  attempts : List (Dispatch ι)
  /-- and those whose slot is not free yet. -/
  slots : List (Dispatch ι)
  used : List String
  finished : List String

/-- One queue, its store and the drain passes of its controllers. -/
structure System (ι : Type) where
  store : State
  clock : ℚ
  passes : ι → Program Call Reply DrainError (Option PassLocals)
  views : ι → Option ClaimView
  record : Record ι

section Steps

variable {ι : Type} [DecidableEq ι]

namespace Record

variable (r : Record ι)

def start : Record ι where
  landed _ := false
  spent _ := false
  phase _ := .idle
  claimant _ := none
  handed _ := 0
  attempts := []
  slots := []
  used := []
  finished := []

/-- A pass takes up its next claim, if there is one. -/
def claim (i : ι) (now : ℚ) (next : Option String) : Record ι :=
  let r := { r with landed := Function.update r.landed i false, spent := Function.update r.spent i false }
  match next with
  | none => r
  | some id => { r with
      phase := Function.update r.phase id (.claimed i now)
      claimant := Function.update r.claimant id (some i) }

def confirm (i : ι) (id : String) (since : ℚ) : Record ι :=
  { r with
    landed := Function.update r.landed i true
    phase := Function.update r.phase id (.confirmed i since) }

/-- The entry is made pending. -/
def release (id : String) : Record ι :=
  { r with
    phase := Function.update r.phase id .idle
    handed := Function.update r.handed id 0 }

def spend (i : ι) : Record ι := { r with spent := Function.update r.spent i true }

/-- The entry is handed over. Nobody waits for one that is finished. -/
def handOver (i : ι) (request : RequestMetadata) (started : Bool) : Record ι :=
  { r with
    phase := Function.update r.phase request.requestId (.handed i)
    handed := Function.update r.handed request.requestId (r.handed request.requestId + 1)
    attempts := if request.requestId ∈ r.finished then r.attempts else ⟨request, i, started⟩ :: r.attempts
    slots := ⟨request, i, started⟩ :: r.slots }

def finish (id : String) : Record ι := { r with finished := id :: r.finished }

/-- What a call of a pass that takes effect on `s` adds. -/
def after (q : QueueKeys) (i : ι) (v : Option ClaimView) (outlook : Outlook) (now : ℚ) (s : State) : Call → Record ι
  | .getNextRequest skipGrantIds skipRequestIds => r.claim i now (nextId q s skipGrantIds skipRequestIds now)
  | .confirmRequest id since => if (confirmRequest q s id (fin since) now).1 then r.confirm i id since else r
  | .updateRequest id _ => if (q.item s now id).isSome then (r.release id).spend i else r
  | .requestReady request => (r.handOver i request (v.elim false ClaimView.started)).spend i
  | .failWaitingRequest id => if outlook.waiterFailed then r.finish id else r
  | .removeRequest id => r.finish id
  | _ => r

end Record

inductive Event (ι : Type) where
  /-- A pass makes its next call. -/
  | pass (i : ι) (fate : Fate) (outlook : Outlook)
  | add (request : QueuedRequest) (ttl : JsNumber)
  /-- An owner counts a retry. -/
  | recount (id : String) (retries : JsNumber)
  /-- An owner makes a retry pending. -/
  | retry (id : String)
  /-- An attempt is over, -/
  | complete (id : String)
  /-- and its slot is freed. -/
  | free (id : String) (retries : JsNumber)
  | remove (id : String) (ttl : JsNumber)
  | cleanup (alive : List String) (current : String)
  /-- Anything else that goes on in the store. -/
  | elsewhere (after : State)

namespace System

variable (q : QueueKeys) (clients : ι → Client)

def start (store : State) (clock : ℚ) : System ι where
  store := store
  clock := clock
  passes i := (clients i).processRequests
  views _ := none
  record := .start

/-- What a pass does next, its finished turn followed by another. -/
def program (sys : System ι) (i : ι) : Program Call Reply DrainError (Option PassLocals) :=
  Program.unroll (clients i).round (sys.passes i)

/-- A pass makes the call `c`, and goes on as `next` says. -/
def call (sys : System ι) (i : ι) (fate : Fate) (outlook : Outlook) (now : ℚ) (c : Call)
    (next : Except DrainError (Reply c) → Program Call Reply DrainError (Option PassLocals)) : System ι :=
  let out := c.exec q (clients i) outlook now sys.store
  let reply := if fate = .answered ∨ c.isLocal = true then out.1 else .error .failed
  let took := decide (fate ≠ .failedBefore) || c.isLocal
  { store := if took then out.2 else sys.store
    clock := now
    passes := Function.update sys.passes i (next reply)
    views := Function.update sys.views i (viewAfter (sys.views i) c reply)
    record := if took then sys.record.after q i (sys.views i) outlook now sys.store c else sys.record }

/-- `addRequest` of an owner. -/
def add (sys : System ι) (request : QueuedRequest) (ttl : JsNumber) (now : ℚ) : System ι :=
  let out := (addRequest q request ttl now).run sys.store
  { sys with
    store := out.2
    clock := now
    record := if out.1 = .ok true then { sys.record.release request.requestId
      with used := request.requestId :: sys.record.used }
      else sys.record }

def retry (sys : System ι) (id : String) (now : ℚ) : System ι :=
  { sys with
    store := updateRequest q sys.store id { status := some "pending" } now
    clock := now
    record := if (q.item sys.store now id).isSome then sys.record.release id else sys.record }

def step (now : ℚ) (sys : System ι) : Event ι → System ι
  | .pass i fate outlook =>
    match sys.program clients i with
    | .done _ => { sys with clock := now }
    | .call c next => sys.call q clients i fate outlook now c next
  | .add request ttl => sys.add q request ttl now
  | .recount id retries =>
    { sys with store := updateRequest q sys.store id { retries := some retries } now, clock := now }
  | .retry id => sys.retry q id now
  | .complete id =>
    { sys with
      clock := now
      record := { sys.record with attempts := sys.record.attempts.filter fun a => a.request.requestId ≠ id } }
  | .free id retries =>
    { sys with
      clock := now
      record := { sys.record with
        slots := sys.record.slots.filter fun a => ¬ (a.request.requestId = id ∧ a.request.retries = retries) } }
  | .remove id ttl =>
    { sys with store := (removeRequest q sys.store id ttl now).2, clock := now, record := sys.record.finish id }
  | .cleanup alive current =>
    { sys with store := cleanupOrphanedRequests q sys.store alive current now, clock := now }
  | .elsewhere after => { sys with store := after, clock := now }

end System

end Steps

end Dianemo
