import Dianemo.JsonValue
import Dianemo.Registry

namespace Dianemo

open JsNumber

/-- The conversions between values and texts that the language supplies: `String(x)` and
`Number(raw)` of a number, `parseInt(raw, 10)`, `parseFloat(raw)`, and those of `JSON`,
`parse` giving `none` where it throws. -/
structure Conversions where
  string : JsNumber → String
  number : String → JsNumber
  parseInt : String → JsNumber
  parseFloat : String → JsNumber
  stringify : JsonValue → String
  parse : String → Option JsonValue

/-- `Number.EPSILON`. -/
def epsilon : ℚ := 1 / 2 ^ 52

/-- What refuses a cost: the code of the error and its text. -/
structure UnusableCost where
  code : String
  message : String

/-- Why a cost cannot be admitted: a `RequestCostMismatchError` or a
`RequestCostExceedsBudgetError`, and what each is built from. -/
inductive CostRefusal where
  | mismatch (clientName : String) (missing unknown declared : List String)
  | exceedsBudget (clientName : String) (cost ceiling : JsNumber) (limitName : Option String)

/-- `isMetered`: a limit that meters a request. -/
def NamedRateLimitData.isMetered (limit : NamedRateLimitData) : Bool :=
  match limit.data with
  | .requestLimit .. => true
  | .concurrencyLimit _ => true
  | _ => false

/-- `ceilingOf`; only asked of a metered limit. -/
def NamedRateLimitData.ceilingOf (limit : NamedRateLimitData) : JsNumber :=
  match limit.data with
  | .requestLimit maxTokens .. => maxTokens
  | .concurrencyLimit maxConcurrency => maxConcurrency
  | _ => nan

/-- A ceiling exceeded, as the loop of `costProblem` records it. -/
structure Breach where
  limit : NamedRateLimitData
  amount : JsNumber
  ceiling : JsNumber

section Costs

variable (js : Conversions)

/-- `describe`. -/
def describe (value : JsonValue) : String :=
  match value with
  | .num x => if x.isFinite then js.stringify value else js.string x
  | _ => js.stringify value

/-- `typeof amount !== "number" || !Number.isFinite(amount) || (amount !== 0 && amount < Number.EPSILON)`. -/
def unusableAmount (amount : JsonValue) : Bool :=
  match amount with
  | .num x => !x.isFinite || (x ≠ 0 && decide (x < fin epsilon))
  | _ => true

/-- `amount >= Number.EPSILON`. -/
def spends (amount : JsonValue) : Bool :=
  match amount with
  | .num x => decide (fin epsilon ≤ x)
  | _ => false

def unusableCostReason (cost : JsonValue) : Option String :=
  match cost with
  | .num x =>
    if x.isFinite && decide (fin epsilon ≤ x) then none
    else some (s!"cost must be a finite number of at least {js.string (fin epsilon)}. " ++
      s!"Received {describe js cost}.")
  | .obj entries =>
    if entries.length = 0 then
      some "cost must name at least one rate limit when given as an object. Received \x7b\x7d."
    else match entries.find? fun entry => unusableAmount entry.2 with
      | some (name, amount) =>
        some (s!"cost for rate limit \"{name}\" must be 0 or a finite number of at least {js.string (fin epsilon)}. " ++
          s!"Received {describe js amount}.")
      | none =>
        if entries.any fun entry => spends entry.2 then none
        else some s!"cost must spend something against at least one rate limit. Received {describe js cost}."
  | _ =>
    some s!"cost must be a number or an object of numbers keyed by rate limit name. Received {describe js cost}."

/-- The amount charged to one named limit, or the `ConfigurationError` thrown where there is none. -/
def costFor (cost : JsonValue) (limitName : String) : Except UnusableCost JsNumber :=
  match cost with
  | .num x => .ok x
  | _ =>
    match cost.get limitName with
    | some (.num amount) => .ok amount
    | _ => .error ⟨"invalid_request_cost",
        s!"cost names no amount for rate limit \"{limitName}\". Received {describe js cost}."⟩

/-- The amount a claim took from one limit: 0 where the cost does not name it. -/
def claimedAmount (cost : JsonValue) (limitName : String) : Except UnusableCost JsNumber :=
  match cost with
  | .num _ => costFor js cost limitName
  | _ => if (cost.get limitName).isNone then .ok 0 else costFor js cost limitName

/-- One turn of the loop of `costProblem`: the breach with the lowest ceiling so far. -/
def tightest (cost : JsonValue) (breach : Option Breach) (limit : NamedRateLimitData) :
    Except UnusableCost (Option Breach) := do
  let amount ← costFor js cost limit.name
  let ceiling := limit.ceilingOf
  if amount ≤ ceiling then pure breach
  else if breach.elim true fun lowest => decide (ceiling < lowest.ceiling) then pure (some ⟨limit, amount, ceiling⟩)
  else pure breach

/-- The loop of `costProblem`: the ceiling exceeded, the lowest of them. -/
def lowestBreach (cost : JsonValue) (limits : List NamedRateLimitData) : Except UnusableCost (Option Breach) :=
  limits.foldlM (tightest js cost) none

/-- The names the limits have and the cost does not, and those the cost has and the limits do not. -/
def misnamed (cost : JsonValue) (declared : List String) : List String × List String :=
  match cost with
  | .num _ => ([], [])
  | _ => (declared.filter fun name => (cost.get name).isNone,
      (cost.entries.map Prod.fst).filter fun name => name ∉ declared)

def costProblem (clientName : String) (cost : JsonValue) (limits : Option (List NamedRateLimitData)) :
    Except UnusableCost (Option CostRefusal) :=
  match limits with
  | none => .ok none
  | some limits => do
    let declared := limits.map NamedRateLimitData.name
    let (missing, unknown) := misnamed cost declared
    if missing ≠ [] ∨ unknown ≠ [] then pure (some (.mismatch clientName missing unknown declared))
    else match ← lowestBreach js cost limits with
      | none => pure none
      | some breach =>
        pure (some (.exceedsBudget clientName breach.amount breach.ceiling
          (if 1 < limits.length then some breach.limit.name else none)))

end Costs

/-- The client a `sharedLimit` borrows from. -/
def NamedRateLimitData.lender (limit : NamedRateLimitData) : Option String :=
  match limit.data with
  | .sharedLimit clientName => some clientName
  | _ => none

/-- `budgetLimitsFor`: the limits a request on this config spends. -/
def budgetLimitsFor (config : List NamedRateLimitData) (resolveShared : String → Option (List NamedRateLimitData)) :
    Option (List NamedRateLimitData) :=
  match config.findSome? NamedRateLimitData.lender with
  | some owner => (resolveShared owner).map fun limits => limits.filter NamedRateLimitData.isMetered
  | none => some (config.filter NamedRateLimitData.isMetered)

end Dianemo
