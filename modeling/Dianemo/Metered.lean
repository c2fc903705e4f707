import Dianemo.Cost
import Dianemo.Keys
import Dianemo.MultiLimit

namespace Dianemo

open JsNumber

/-- A `MeteredClient`: where its keys stand, the limits it declares, and the two
request options its claims read. -/
structure MeteredClient where
  name : String
  keys : KeyedClient
  rateLimit : List NamedRateLimitData
  concurrencySlotTtl : Option JsNumber
  settleWindow : Option JsNumber

/-- What a claim reads of the request it is made for. -/
structure ClaimingRequest where
  requestId : String
  retries : ℕ
  grantId : Option String
  settles : Bool

/-- What `claim` answers. -/
structure MeteredClient.ClaimResult where
  acquired : Bool
  waitTime : Option JsNumber := none
  error : Option String := none

/-- `DEFAULT_SETTLE_WINDOW_MS`. -/
def defaultSettleWindowMs : ℚ := 900000

def soleRateLimit (config : List NamedRateLimitData) : Option NamedRateLimitData :=
  match config with
  | [limit] => some limit
  | _ => none

namespace MeteredClient

variable (js : Conversions) (client : MeteredClient)

/-- `requestTtl`, as the constructor leaves it. -/
def requestTtl : JsNumber :=
  match client.concurrencySlotTtl with
  | some slotTtl => if slotTtl.usable then slotTtl else 120000
  | none => 120000

def settleWindowMs : JsNumber :=
  match client.settleWindow with
  | some window => if window.usable then window else fin defaultSettleWindowMs
  | none => fin defaultSettleWindowMs

/-- What one limit contributes to `getLimitSpecs`. -/
def limitSpec (grantId : Option String) (slotId : String) (cost : JsonValue) (forRelease : Bool)
    (limit : NamedRateLimitData) : Except UnusableCost (Option MultiLimitSpec) :=
  let amountFor := fun name => if forRelease then claimedAmount js cost name else costFor js cost name
  match limit.data with
  | .requestLimit maxTokens tokensToAdd interval _ => do
    let amount ← amountFor limit.name
    pure (some (.tokenBucket ⟨client.keys.getBucketKey limit.name grantId, amount, ⟨maxTokens, tokensToAdd, interval⟩, none,
      some (client.keys.getFreezeStateKey grantId)⟩))
  | .concurrencyLimit maxConcurrency => do
    let amount ← amountFor limit.name
    pure (some (.concurrency ⟨client.keys.getSlotKey limit.name grantId, amount, ⟨maxConcurrency, client.requestTtl⟩, slotId,
      some (client.keys.getFreezeStateKey grantId)⟩))
  | _ => pure none

def limitSpecs (grantId : Option String) (slotId : String) (cost : JsonValue) (forRelease : Bool) :
    List NamedRateLimitData → Except UnusableCost (List MultiLimitSpec)
  | [] => pure []
  | limit :: rest => do
    let spec ← client.limitSpec js grantId slotId cost forRelease limit
    let specs ← limitSpecs grantId slotId cost forRelease rest
    pure (spec.toList ++ specs)

/-- Every budget a request must claim, in the order declared. -/
def getLimitSpecs (grantId : Option String) (slotId : String) (cost : JsonValue) (forRelease : Bool) :
    Except UnusableCost (List MultiLimitSpec) :=
  client.limitSpecs js grantId slotId cost forRelease client.rateLimit

/-- The mark a bucket's claim leaves for a request that will settle. -/
def markFor (request : ClaimingRequest) (config : TokenBucketConfig) : Option ClaimMark :=
  if ¬ request.settles then none
  else
    let refillMs := (config.maxTokens / config.tokensToAdd).ceil * config.interval
    some ⟨getSlotId request.requestId request.retries, (client.settleWindowMs.max refillMs / 1000).ceil⟩

def withMarks (request : ClaimingRequest) (specs : List MultiLimitSpec) : List MultiLimitSpec :=
  if ¬ request.settles then specs
  else specs.map fun spec => match spec with
    | .tokenBucket spec => .tokenBucket { spec with mark := client.markFor request spec.config }
    | .concurrency spec => .concurrency spec

/-- The claim, by whichever backend call fits the client's budgets; `acquireQueued` says whether
the backend has `acquireQueuedConcurrency`. -/
def claim (acquireQueued : Bool) (request : ClaimingRequest) (cost : JsonValue) (now : ℚ) :
    Op (Except UnusableCost ClaimResult) :=
  let slotId := getSlotId request.requestId request.retries
  match soleRateLimit client.rateLimit with
  | some ⟨name, .requestLimit maxTokens tokensToAdd interval _⟩ =>
    let config : TokenBucketConfig := ⟨maxTokens, tokensToAdd, interval⟩
    match costFor js cost name with
    | .error error => pure (.error error)
    | .ok amount => do
      let result ← acquireTokens (client.keys.getBucketKey name request.grantId) amount config
        (client.markFor request config) now
      pure (.ok ⟨result.acquired, result.waitTime, result.error⟩)
  | some ⟨name, .concurrencyLimit maxConcurrency⟩ =>
    let config : ConcurrencyConfig := ⟨maxConcurrency, client.requestTtl⟩
    let key := client.keys.getSlotKey name request.grantId
    match costFor js cost name with
    | .error error => pure (.error error)
    | .ok amount =>
      let acquire :=
        if acquireQueued then
          acquireQueuedConcurrency key ((clientQueue client.keys.nspace).metadataKey request.requestId) amount slotId config now
        else acquireConcurrency key amount slotId config now
      do
        let result ← acquire
        pure (.ok ⟨result.acquired, none, result.error⟩)
  | _ =>
    match client.getLimitSpecs js request.grantId slotId cost false with
    | .error error => pure (.error error)
    | .ok specs => do
      let result ← acquireMultiLimit (client.withMarks request specs) now
      pure (.ok ⟨result.acquired, result.waitTime, result.error⟩)

/-- Whether a claim came through; a throw did not. -/
def acquires (acquireQueued : Bool) (request : ClaimingRequest) (cost : JsonValue) (now : ℚ) (s : State) : Bool :=
  match ((client.claim js acquireQueued request cost now).run s).1 with
  | .ok (.ok result) => result.acquired
  | _ => false

end MeteredClient

end Dianemo
