import Dianemo.Concurrency

namespace Dianemo

open JsNumber

structure TokenBucketSpec where
  key : String
  cost : JsNumber
  config : TokenBucketConfig
  mark : Option ClaimMark
  freezeKey : Option String

structure ConcurrencySpec where
  key : String
  cost : JsNumber
  config : ConcurrencyConfig
  slotId : String
  freezeKey : Option String

/-- One budget a request must claim. -/
inductive MultiLimitSpec where
  | tokenBucket (spec : TokenBucketSpec)
  | concurrency (spec : ConcurrencySpec)

/-- A budget once `claimMarks` has normalised the lifetime of its mark. -/
inductive ClaimSpec where
  | tokenBucket (spec : TokenBucketSpec) (mark : Option (String × ℚ))
  | concurrency (spec : ConcurrencySpec)

structure AcquireMultiLimitResult where
  acquired : Bool
  waitTime : Option JsNumber := none
  blockedBy : Option String := none
  error : Option String := none

/-- A bucket's refilled balance, held until every budget in the claim admits. -/
structure PlannedBucket where
  state : BucketState
  key : String
  cost : JsNumber
  config : TokenBucketConfig
  mark : Option (String × ℚ)

structure PlannedSlot where
  key : String
  slotId : String
  cost : JsNumber

/-- What the check phase reports. -/
structure Plan where
  acquired : Bool := true
  error : Option String := none
  waitTime : Option JsNumber := none
  blockedBy : Option String := none
  buckets : List PlannedBucket := []
  slots : List PlannedSlot := []

def claimMarks : List MultiLimitSpec → Except RangeError (List ClaimSpec)
  | [] => .ok []
  | .tokenBucket spec :: rest => do
    let mark ← claimMark spec.mark
    let claims ← claimMarks rest
    .ok (.tokenBucket spec mark :: claims)
  | .concurrency spec :: rest => do
    let claims ← claimMarks rest
    .ok (.concurrency spec :: claims)

/-- A bucket's refusal recorded in the plan: the longest wait any budget asks for. -/
def Plan.declineBucket (plan : Plan) (key : String) (wait : JsNumber) : Plan :=
  if plan.waitTime.elim true fun longest => decide (longest < wait) then
    { plan with acquired := false, waitTime := some wait, blockedBy := some key }
  else { plan with acquired := false }

/-- A full ledger's refusal; it has no deadline of its own. -/
def Plan.declineSlot (plan : Plan) (key : String) : Plan :=
  { plan with acquired := false, blockedBy := some (plan.blockedBy.getD key) }

/-- One turn of the check phase on a bucket. -/
def planBucket (s : State) (spec : TokenBucketSpec) (mark : Option (String × ℚ)) (plan : Plan) (now : ℚ) :
    Plan :=
  let state := refill s spec.key spec.config now
  let planned := { plan with buckets := plan.buckets ++ [⟨state, spec.key, spec.cost, spec.config, mark⟩] }
  if coversCost state.tokens spec.cost spec.config.maxTokens then planned
  else planned.declineBucket spec.key (tokenWait state spec.cost spec.config now)

/-- One turn of the check phase on a ledger already reaped. -/
def planSlot (s : State) (spec : ConcurrencySpec) (plan : Plan) (now : ℚ) : Plan :=
  if spec.config.maxConcurrency < concurrencyCost s spec.key spec.slotId now + spec.cost then
    plan.declineSlot spec.key
  else { plan with slots := plan.slots ++ [⟨spec.key, spec.slotId, spec.cost⟩] }

/-- The check phase both multi-budget paths share. The refilled balances are
returned rather than written; reaping is a write and happens here regardless. -/
def planMultiLimit (now : ℚ) : List ClaimSpec → Plan → State → Plan × State
  | [], plan, s => (plan, s)
  | .tokenBucket spec mark :: rest, plan, s =>
    match unusableBudget spec.cost spec.config with
    | some error => ({ plan with acquired := false, error := some error, waitTime := none, blockedBy := none }, s)
    | none => planMultiLimit now rest (planBucket s spec mark plan now) s
  | .concurrency spec :: rest, plan, s =>
    match unusableSlot spec.cost spec.config with
    | some error => ({ plan with acquired := false, error := some error, waitTime := none, blockedBy := none }, s)
    | none =>
      let reaped := reapConcurrency s spec.key (fin now - spec.config.requestTtl) now
      planMultiLimit now rest (planSlot reaped spec plan now) reaped

def commitBucket (bucket : PlannedBucket) (ttl : JsNumber) (now : ℚ) : Op Unit :=
  spendTokens bucket.key bucket.state bucket.cost ttl bucket.config bucket.mark now

/-- The writes that follow the check phase, and whether the claim was admitted:
the refilled balances alone on refusal, every budget on success, nothing on an error. -/
def commitPlan (plan : Plan) (ttl : JsNumber) (now : ℚ) : Op Unit :=
  if plan.error.isSome then pure ()
  else if ¬ plan.acquired then
    Op.forEach plan.buckets fun bucket => writeBucket bucket.key bucket.state ttl (some bucket.config) now
  else do
    Op.forEach plan.buckets fun bucket => commitBucket bucket ttl now
    Op.forEach plan.slots fun slot => claimSlot slot.key slot.slotId slot.cost ttl now

/-- The check phase as an operation. -/
def runPlan (claims : List ClaimSpec) (now : ℚ) : Op Plan :=
  ⟨fun s => (.ok (planMultiLimit now claims {} s).1, (planMultiLimit now claims {} s).2)⟩

/-- What `acquireMultiLimit` answers. -/
def Plan.report (plan : Plan) : AcquireMultiLimitResult :=
  match plan.error with
  | some error => { acquired := false, error := some error }
  | none =>
    if plan.acquired then { acquired := true }
    else { acquired := false, waitTime := some (plan.waitTime.getD 0), blockedBy := plan.blockedBy }

/-- Evaluates every budget before committing to any of them. -/
def acquireMultiLimit (specs : List MultiLimitSpec) (now : ℚ) : Op AcquireMultiLimitResult := do
  let claims ← Op.lift (claimMarks specs)
  let planned ← runPlan claims now
  commitPlan planned 86400 now
  pure planned.report

def releaseSpec (s : State) (spec : MultiLimitSpec) (now : ℚ) : State :=
  match spec with
  | .concurrency spec => releaseSlot s spec.key spec.slotId now
  | .tokenBucket spec => creditTokens s spec.key spec.cost spec.config.maxTokens spec.freezeKey now

def releaseMultiLimit (specs : List MultiLimitSpec) (now : ℚ) : Op Unit :=
  Op.modify fun s => specs.foldl (fun s spec => releaseSpec s spec now) s

def tryAdmitMultiLimit (queueKey : String) (freezeKeys : List String) (specs : List MultiLimitSpec)
    (ttl : JsNumber) (now : ℚ) : Op Bool := do
  let keyTtl ← Op.lift (normalizeStateTtlSeconds ttl)
  let claims ← Op.lift (claimMarks specs)
  let s ← Op.read
  if s.sorted queueKey now ≠ [] ∨ freezeKeys.any (fun freezeKey => s.freezeBlocksAdmission freezeKey now) then
    pure false
  else
    let planned ← runPlan claims now
    commitPlan planned keyTtl now
    pure (planned.error.isNone && planned.acquired)

end Dianemo
