import Dianemo.JsonValue
import Dianemo.Renaming

namespace Dianemo

/-! ### Limits as they arrive -/

/-- A number a field holds; anything else fails every check a `NaN` fails. -/
def readNumber : Option JsonValue → JsNumber
  | some (.num x) => x
  | _ => .nan

/-- A text a field holds; anything else fails every check the empty text fails. -/
def readText : Option JsonValue → String
  | some (.str s) => s
  | _ => ""

/-- What `assertUsableRateLimit` sees of a limit. -/
def readLimitData (limit : JsonValue) : RateLimitData :=
  match limit.get "type" with
  | some (.str "requestLimit") =>
    .requestLimit (readNumber (limit.get "maxTokens")) (readNumber (limit.get "tokensToAdd"))
      (readNumber (limit.get "interval")) ((limit.get "maxDebt").map fun debt => readNumber (some debt))
  | some (.str "concurrencyLimit") => .concurrencyLimit (readNumber (limit.get "maxConcurrency"))
  | some (.str "sharedLimit") => .sharedLimit (readText (limit.get "clientName"))
  | some (.str "noLimit") => .noLimit
  | other => .unrecognised (readText other)

def readLimit (limit : JsonValue) : NamedRateLimitData := ⟨readText (limit.get "name"), readLimitData limit⟩

/-- The code `assertUsableRateLimits` throws with on a list of any values. -/
def receivedLimitsProblem (limits : List JsonValue) : Option String := rateLimitsProblem (limits.map readLimit)

def isSharedLimit (limit : JsonValue) : Bool := JsonValue.strictEqual (limit.get "type") (some (.str "sharedLimit"))

/-- A thrown `TypeError`: a property read from `null`. -/
inductive TypeError where
  | readFromNull
  deriving DecidableEq

/-- `value.name`. -/
def JsonValue.property (value : JsonValue) (name : String) : Except TypeError (Option JsonValue) :=
  match value with
  | .null => .error .readFromNull
  | value => .ok (value.get name)

/-- What a limit's name adds to the names an update claims: `flatMap` takes a list apart. -/
def claimedNames : Option JsonValue → List JsonValue
  | none | some .null => []
  | some (.arr items) => items
  | some name => [name]

/-- `taken.has(name)`. -/
def isTaken (taken : List JsonValue) (name : JsonValue) : Bool :=
  taken.any fun other => JsonValue.strictEqual (some other) (some name)

/-- `inheritedName`, of a list of any values. -/
def receivedName (type : Option JsonValue) (previous : Option (List JsonValue))
    (taken : List JsonValue) : JsonValue :=
  let sameType := (previous.getD []).filter fun limit => JsonValue.strictEqual (limit.get "type") type
  match sameType with
  | [limit] =>
    match limit.get "name" with
    | none => .str defaultRateLimitName
    | some name => if isTaken taken name then .str defaultRateLimitName else name
  | _ => .str defaultRateLimitName

/-- `normalizeRateLimit`, of a list of any values. -/
def normalizeReceived (config previous : List JsonValue) : Except TypeError (List JsonValue) := do
  let names ← config.mapM fun limit => limit.property "name"
  let taken := names.flatMap claimedNames
  let unnamed := (names.filter fun name => name.isNone).length
  let inheritFrom := if unnamed = 1 then some previous else none
  return config.map fun limit =>
    limit.spreadWith "name" <|
      match limit.get "name" with
      | none | some .null => receivedName (limit.get "type") inheritFrom taken
      | some name => name

/-! ### The two classes of client -/

/-- A registered client, as a broadcast finds it: whether it is a
`SharedLimitClient`, and its limits. -/
structure LimitedClient where
  shared : Bool
  rateLimit : List JsonValue

/-- What handling a broadcast leaves of a client: its limits, whether an error
was logged, and whether the queue was poked. -/
structure Received where
  rateLimit : List JsonValue
  logged : Bool
  poked : Bool

/-- `MeteredClient.handleRateLimitUpdated`; `canClaim` is `assertBackendCanClaim`. -/
def handleMetered (canClaim : List JsonValue → Bool) (rateLimit : List JsonValue) (data : JsonValue) :
    Except TypeError Received :=
  match data.get "rateLimit" with
  | some (.arr config) => do
    let limits ← normalizeReceived config rateLimit
    return if limits.any isSharedLimit then ⟨rateLimit, false, false⟩
      else if (receivedLimitsProblem limits).isSome || !canClaim limits then ⟨rateLimit, true, false⟩
      else ⟨limits, false, true⟩
  | _ => .ok ⟨rateLimit, true, false⟩

/-- `SharedLimitClient.handleRateLimitUpdated`. -/
def handleShared (rateLimit : List JsonValue) (data : JsonValue) : Except TypeError Received :=
  match data.get "rateLimit" with
  | some (.arr config) => do
    let limits ← normalizeReceived config rateLimit
    return match limits with
      | [shared] => if isSharedLimit shared then ⟨limits, false, false⟩ else ⟨rateLimit, false, false⟩
      | _ => ⟨rateLimit, false, false⟩
  | _ => .ok ⟨rateLimit, false, false⟩

def LimitedClient.handleRateLimitUpdated (canClaim : List JsonValue → Bool)
    (client : LimitedClient) (data : JsonValue) : Except TypeError Received :=
  if client.shared then handleShared client.rateLimit data else handleMetered canClaim client.rateLimit data

/-! ### Delivery -/

/-- `this.clients`. -/
abbrev LimitedClients := String → Option LimitedClient

/-- `handleRateLimitUpdated`: the clients after it, and whether an error was logged. -/
def handleRateLimitUpdated (canClaim : List JsonValue → Bool) (parse : String → Option JsonValue)
    (clients : LimitedClients) (message : String) : Except TypeError (LimitedClients × Bool) :=
  match parse message with
  | none => .ok (clients, true)
  | some updatedData => do
    match ← updatedData.property "clientName" with
    | some (.str clientName) =>
      match clients clientName with
      | none => return (clients, false)
      | some client =>
        let received ← client.handleRateLimitUpdated canClaim updatedData
        return (Function.update clients clientName (some { client with rateLimit := received.rateLimit }), received.logged)
    | _ => return (clients, false)

/-- What a delivered message leaves: the clients, whether an error was logged, and the rejection nothing handles. -/
structure Delivered where
  clients : LimitedClients
  logged : Bool
  unhandled : Option TypeError := none

/-- The subscription's callback on this channel. What `handleMessage` throws would be logged, but it
does not await `handleRateLimitUpdated`, whose rejection nothing handles. -/
def onMessage (canClaim : List JsonValue → Bool) (parse : String → Option JsonValue) (clients : LimitedClients)
    (message : String) : Delivered :=
  match handleRateLimitUpdated canClaim parse clients message with
  | .ok (after, logged) => ⟨after, logged, none⟩
  | .error thrown => ⟨clients, false, some thrown⟩

/-- The messages one after another: the clients in the end, and every rejection nothing handled. -/
def deliver (canClaim : List JsonValue → Bool) (parse : String → Option JsonValue) (clients : LimitedClients) :
    List String → LimitedClients × List TypeError
  | [] => (clients, [])
  | message :: rest =>
    let first := onMessage canClaim parse clients message
    let later := deliver canClaim parse first.clients rest
    (later.1, first.unhandled.toList ++ later.2)

/-! ### What holds of a client's limits -/

/-- Limits a client of its class may have. -/
def LimitedClient.Sound (client : LimitedClient) : Prop :=
  receivedLimitsProblem client.rateLimit = none ∧
    if client.shared then ∃ limit, client.rateLimit = [limit] ∧ isSharedLimit limit = true
    else ∀ limit ∈ client.rateLimit, isSharedLimit limit = false

def LimitedClients.Sound (clients : LimitedClients) : Prop :=
  ∀ name client, clients name = some client → client.Sound

/-- A `sharedLimit` entry that says nothing usable: no owner's name, or a name of its own that is none. -/
def Unusable (entry : JsonValue) : Prop :=
  isSharedLimit entry = true ∧
    (readText (entry.get "clientName") = "" ∨
      (∃ name, entry.get "name" = some name ∧ name ≠ .null ∧ rateLimitNameTest (readText (some name)) = false))

/-- The message hands a `SharedLimitClient` a lone entry of its kind that is unusable. -/
def Poisons (parse : String → Option JsonValue) (clients : LimitedClients) (message : String) : Prop :=
  ∃ data clientName client entry, parse message = some data ∧ data.get "clientName" = some (.str clientName) ∧
    clients clientName = some client ∧ client.shared = true ∧
      data.get "rateLimit" = some (.arr [entry]) ∧ Unusable entry

/-- The handler throws on the message: it is `null`, or hands a client a list with `null` in it. -/
def Rejects (parse : String → Option JsonValue) (clients : LimitedClients) (message : String) : Prop :=
  parse message = some .null ∨
    ∃ data clientName client config, parse message = some data ∧ data.get "clientName" = some (.str clientName) ∧
      clients clientName = some client ∧ data.get "rateLimit" = some (.arr config) ∧ .null ∈ config

/-! ### Names on receipt -/

section Names

variable {config previous limits : List JsonValue} {limit entry : JsonValue} {name : JsonValue}

theorem property_ok {value : JsonValue} {name : String} {read : Option JsonValue}
    (ok : value.property name = .ok read) : read = value.get name := by
  cases value with
  | null => cases ok
  | _ => exact (Except.ok.inj ok).symm

theorem mapM_property {name : String} {names : List (Option JsonValue)}
    (ok : config.mapM (fun limit => limit.property name) = .ok names) :
    names = config.map fun limit => limit.get name := by
  induction config generalizing names with
  | nil => exact (Except.ok.inj ok).symm
  | cons head rest ih =>
    rw [List.mapM_cons] at ok
    cases first : head.property name with
    | error thrown =>
      rw [first] at ok
      cases ok
    | ok read =>
      cases others : rest.mapM fun limit => limit.property name with
      | error thrown =>
        rw [first, others] at ok
        cases ok
      | ok reads =>
        rw [first, others] at ok
        rw [← Except.ok.inj ok, List.map_cons, property_ok first, ih others]

/-- A property is read from every value but `null`. -/
theorem property_returns {value : JsonValue} (given : value ≠ .null) (name : String) :
    value.property name = .ok (value.get name) := by
  cases value with
  | null => exact absurd rfl given
  | _ => rfl

theorem mapM_property_returns (given : .null ∉ config) (name : String) :
    config.mapM (fun limit => limit.property name) = .ok (config.map fun limit => limit.get name) := by
  induction config with
  | nil => rfl
  | cons head rest ih =>
    rw [List.mem_cons, not_or] at given
    rw [List.mapM_cons, property_returns (Ne.symm given.1), ih given.2]
    rfl

theorem mapM_property_throws (given : .null ∈ config) (name : String) :
    config.mapM (fun limit => limit.property name) = .error .readFromNull := by
  induction config with
  | nil => exact absurd given List.not_mem_nil
  | cons head rest ih =>
    rw [List.mapM_cons]
    by_cases first : head = .null
    · rw [first]
      rfl
    · rw [property_returns first, ih ((List.mem_cons.mp given).resolve_left (Ne.symm first))]
      rfl

/-- A list is named unless `null` is in it. -/
theorem normalizeReceived_throws_iff (config previous : List JsonValue) :
    (∃ thrown, normalizeReceived config previous = .error thrown) ↔ .null ∈ config := by
  unfold normalizeReceived
  by_cases given : .null ∈ config
  · rw [mapM_property_throws given]
    exact iff_of_true ⟨_, rfl⟩ given
  · rw [mapM_property_returns given]
    exact iff_of_false (by rintro ⟨thrown, failed⟩; cases failed) given

/-- What a limit's `type` and data are is not changed by giving it a name. -/
theorem readLimit_spreadWith (limit name : JsonValue) :
    readLimit (limit.spreadWith "name" name) = ⟨readText (some name), readLimitData limit⟩ := by
  have kept : ∀ (field : String) {c : Char}, c.isDigit = false → c ∈ field.toList → field ≠ "name" →
      (limit.spreadWith "name" name).get field = limit.get field := by
    intro field c letter member other
    rw [JsonValue.get_spreadWith, if_neg other, JsonValue.lookup_entries letter member]
  have named : (limit.spreadWith "name" name).get "name" = some name := by
    rw [JsonValue.get_spreadWith, if_pos rfl]
  rw [readLimit, readLimitData, named, kept "type" (c := 't') (by decide) (by decide) (by decide),
    kept "maxTokens" (c := 'm') (by decide) (by decide) (by decide),
    kept "tokensToAdd" (c := 't') (by decide) (by decide) (by decide),
    kept "interval" (c := 'i') (by decide) (by decide) (by decide),
    kept "maxDebt" (c := 'm') (by decide) (by decide) (by decide),
    kept "maxConcurrency" (c := 'm') (by decide) (by decide) (by decide),
    kept "clientName" (c := 'c') (by decide) (by decide) (by decide)]
  rfl

theorem isSharedLimit_spreadWith (limit name : JsonValue) :
    isSharedLimit (limit.spreadWith "name" name) = isSharedLimit limit := by
  have kept : (limit.spreadWith "name" name).get "type" = limit.get "type" := by
    rw [JsonValue.get_spreadWith, if_neg (by decide), JsonValue.lookup_entries (c := 't') (by decide) (by decide)]
  rw [isSharedLimit, kept, isSharedLimit]

theorem isSharedLimit_iff : isSharedLimit limit = true ↔ limit.get "type" = some (.str "sharedLimit") := by
  unfold isSharedLimit JsonValue.strictEqual
  split <;> simp_all

/-- The list `normalizeReceived` gives, where it throws nothing. -/
theorem normalizeReceived_ok (ok : normalizeReceived config previous = .ok limits) :
    limits = config.map fun limit => limit.spreadWith "name" <|
      match limit.get "name" with
      | none | some .null =>
        receivedName (limit.get "type")
          (if ((config.map fun limit => limit.get "name").filter fun name => name.isNone).length = 1 then some previous
            else none)
          ((config.map fun limit => limit.get "name").flatMap claimedNames)
      | some name => name := by
  unfold normalizeReceived at ok
  cases read : config.mapM fun limit => limit.property "name" with
  | error thrown =>
    rw [read] at ok
    cases ok
  | ok names =>
    rw [read] at ok
    rw [← mapM_property read]
    exact (Except.ok.inj ok).symm

/-- A name taken from limits with proper names, or the default, is proper. -/
theorem receivedName_proper (proper : ∀ limit ∈ previous, rateLimitNameTest (readText (limit.get "name")) = true)
    (type : Option JsonValue) (only : Prop) [Decidable only] (taken : List JsonValue) :
    rateLimitNameTest (readText (some (receivedName type (if only then some previous else none) taken))) = true := by
  have default : rateLimitNameTest (readText (some (.str defaultRateLimitName))) = true := by decide
  by_cases used : only
  · rw [if_pos used]
    simp only [receivedName, Option.getD_some]
    split
    · rename_i one single
      have among : one ∈ previous.filter fun limit => JsonValue.strictEqual (limit.get "type") type := by
        rw [single]
        exact List.mem_singleton_self one
      have named := proper one (List.mem_of_mem_filter among)
      cases read : one.get "name" with
      | none => exact default
      | some name =>
        rw [read] at named
        simp only
        split
        · exact default
        · exact named
    · exact default
  · rw [if_neg used]
    exact default

/-- What makes a lone shared limit usable. -/
theorem rateLimitsProblem_shared {name clientName : String} :
    rateLimitsProblem [⟨name, .sharedLimit clientName⟩] = none ↔
      rateLimitNameTest name = true ∧ clientName ≠ "" := by
  have entries : rateLimitsProblem [⟨name, .sharedLimit clientName⟩] =
    entriesProblem [] [⟨name, .sharedLimit clientName⟩] := rfl
  rw [entries, entriesProblem]
  by_cases named : rateLimitNameTest name = true
  · rw [if_neg (not_not.mpr named), if_neg List.not_mem_nil]
    by_cases owned : clientName ≠ ""
    · simp [RateLimitData.problem, owned, named, entriesProblem]
    · simp [RateLimitData.problem, owned]
  · rw [if_pos named]
    simp [named]

end Names

section Handling

variable {canClaim : List JsonValue → Bool} {parse : String → Option JsonValue} {clients : LimitedClients}
  {message : String} {rateLimit : List JsonValue} {data : JsonValue} {received : Received}

/-- A metered client keeps its limits, or takes usable ones without a shared limit. -/
theorem handleMetered_sound (handled : handleMetered canClaim rateLimit data = .ok received) :
    received.rateLimit = rateLimit ∨ LimitedClient.Sound ⟨false, received.rateLimit⟩ := by
  unfold handleMetered at handled
  split at handled
  · rename_i config list
    cases named : normalizeReceived config rateLimit with
    | error thrown =>
      rw [named] at handled
      cases handled
    | ok limits =>
      rw [named] at handled
      have result := Except.ok.inj handled
      by_cases shared : limits.any isSharedLimit = true
      · rw [if_pos shared] at result
        exact .inl (by rw [← result])
      rw [if_neg shared] at result
      by_cases refused : ((receivedLimitsProblem limits).isSome || !canClaim limits) = true
      · rw [if_pos refused] at result
        exact .inl (by rw [← result])
      rw [if_neg refused] at result
      refine .inr ?_
      rw [← result]
      simp only [Bool.not_eq_true, Bool.or_eq_false_iff, Option.isSome_eq_false_iff,
        Option.isNone_iff_eq_none] at refused
      refine ⟨refused.1, ?_⟩
      rw [if_neg Bool.false_ne_true]
      intro limit member
      simp only [List.any_eq_true, not_exists, not_and, Bool.not_eq_true] at shared
      exact shared limit member
  · exact .inl (by rw [← Except.ok.inj handled])

theorem readLimitData_shared {limit : JsonValue} (shared : isSharedLimit limit = true) :
    readLimitData limit = .sharedLimit (readText (limit.get "clientName")) := by
  rw [readLimitData, isSharedLimit_iff.mp shared]
  rfl

theorem Sound.proper (sound : LimitedClient.Sound ⟨true, rateLimit⟩) :
    ∀ limit ∈ rateLimit, rateLimitNameTest (readText (limit.get "name")) = true := by
  obtain ⟨usable, lone⟩ := sound
  rw [if_pos rfl] at lone
  obtain ⟨only, rfl, shared⟩ := lone
  intro limit member
  rw [List.mem_singleton] at member
  subst member
  rw [receivedLimitsProblem, List.map_singleton, readLimit, readLimitData_shared shared,
    rateLimitsProblem_shared] at usable
  exact usable.1

/-- What a lone shared limit has to be to be usable once it is named. -/
theorem sound_spreadWith {entry name : JsonValue} (shared : isSharedLimit entry = true) :
    LimitedClient.Sound ⟨true, [entry.spreadWith "name" name]⟩ ↔
      rateLimitNameTest (readText (some name)) = true ∧ readText (entry.get "clientName") ≠ "" := by
  rw [LimitedClient.Sound, if_pos rfl, receivedLimitsProblem, List.map_singleton, readLimit_spreadWith,
    readLimitData_shared shared, rateLimitsProblem_shared]
  refine and_iff_left ⟨_, rfl, ?_⟩
  rw [isSharedLimit_spreadWith, shared]

/-- A shared client keeps its limits, or takes the lone shared limit it was sent,
which is usable unless it was sent so. -/
theorem handleShared_spec (sound : LimitedClient.Sound ⟨true, rateLimit⟩)
    (handled : handleShared rateLimit data = .ok received) :
    (received.rateLimit = rateLimit ∧ ∀ entry, data.get "rateLimit" = some (.arr [entry]) → ¬ Unusable entry) ∨
      ∃ entry, data.get "rateLimit" = some (.arr [entry]) ∧
        (LimitedClient.Sound ⟨true, received.rateLimit⟩ ↔ ¬ Unusable entry) := by
  unfold handleShared at handled
  split at handled
  · rename_i config list
    cases named : normalizeReceived config rateLimit with
    | error thrown =>
      rw [named] at handled
      cases handled
    | ok limits =>
      rw [named] at handled
      have result := Except.ok.inj handled
      have kept := normalizeReceived_ok named
      match config, list, kept with
      | [], list, kept =>
        rw [kept] at result
        refine .inl ⟨by rw [← result]; rfl, fun entry sent => ?_⟩
        rw [list] at sent
        simp at sent
      | [entry], list, kept =>
        rw [List.map_singleton] at kept
        rw [kept] at result
        simp only [isSharedLimit_spreadWith] at result
        by_cases shared : isSharedLimit entry = true
        · rw [if_pos shared] at result
          refine .inr ⟨entry, list, ?_⟩
          rw [← result]
          simp only
          rw [sound_spreadWith shared, Unusable]
          cases given : entry.get "name" with
          | none => 
            simp only [receivedName_proper (Sound.proper sound)]
            simp [shared]
          | some name =>
            cases name with
            | null => 
              simp only [receivedName_proper (Sound.proper sound)]
              simp [shared]
            | _ => simp [shared, and_comm]
        · rw [if_neg shared] at result
          refine .inl ⟨by rw [← result], fun other sent => ?_⟩
          rw [list] at sent
          simp only [Option.some.injEq, JsonValue.arr.injEq, List.cons.injEq, and_true] at sent
          rw [← sent]
          exact fun unusable => shared unusable.1
      | first :: second :: rest, list, kept =>
        rw [kept] at result
        refine .inl ⟨by rw [← result]; rfl, fun entry sent => ?_⟩
        rw [list] at sent
        simp at sent
  · rename_i other
    refine .inl ⟨by rw [← Except.ok.inj handled], fun entry sent => absurd sent (other _)⟩

/-- A client as a broadcast may leave it: with the limits it had, or with sound ones. -/
def Spared (before after : LimitedClient) : Prop :=
  after.shared = before.shared ∧ (after.rateLimit = before.rateLimit ∨ after.Sound)

/-- The client a message names, and what it is handed. -/
def addressee (parse : String → Option JsonValue) (clients : LimitedClients) (message : String) :
    Option (String × LimitedClient × JsonValue) :=
  (parse message).bind fun data =>
    match data.get "clientName" with
    | some (.str clientName) => (clients clientName).map fun client => (clientName, client, data)
    | _ => none

theorem addressee_some {clientName : String} {client : LimitedClient} :
    addressee parse clients message = some (clientName, client, data) ↔
      parse message = some data ∧ data.get "clientName" = some (.str clientName) ∧
        clients clientName = some client := by
  unfold addressee
  cases parse message with
  | none => simp
  | some read =>
    simp only [Option.bind_some, Option.some.injEq]
    constructor
    · intro named
      split at named
      · rename_i name given
        obtain ⟨found, here, same⟩ := Option.map_eq_some_iff.mp named
        cases same
        exact ⟨rfl, given, here⟩
      · cases named
    · rintro ⟨rfl, given, found⟩
      rw [given]
      simp only [found, Option.map_some]

/-- A message nobody is named by changes nothing. -/
theorem onMessage_none (nobody : addressee parse clients message = none) :
    (onMessage canClaim parse clients message).clients = clients := by
  unfold addressee at nobody
  unfold onMessage handleRateLimitUpdated
  cases read : parse message with
  | none => rfl
  | some data =>
    rw [read, Option.bind_some] at nobody
    cases data with
    | null => rfl
    | bool b => rfl
    | num x => rfl
    | str s => rfl
    | arr items => rfl
    | obj fields =>
      simp only [JsonValue.property, bind, Except.bind]
      cases given : (JsonValue.obj fields).get "clientName" with
      | none => rfl
      | some value =>
        cases value with
        | str clientName =>
          rw [given] at nobody
          simp only [Option.map_eq_none_iff.mp nobody]
          rfl
        | _ => rfl

theorem onMessage_some {clientName : String} {client : LimitedClient}
    (named : addressee parse clients message = some (clientName, client, data)) :
    (onMessage canClaim parse clients message).clients =
      match client.handleRateLimitUpdated canClaim data with
      | .ok received => Function.update clients clientName (some { client with rateLimit := received.rateLimit })
      | .error _ => clients := by
  obtain ⟨read, given, found⟩ := addressee_some.mp named
  have value : data.property "clientName" = .ok (some (.str clientName)) := by
    cases data with
    | null => cases given
    | _ => exact congrArg Except.ok given
  unfold onMessage handleRateLimitUpdated
  simp only [read, value, found, bind, Except.bind, pure, Except.pure]
  cases client.handleRateLimitUpdated canClaim data with
  | ok received => rfl
  | error thrown => rfl

/-- A client fails on what it is handed just where that is a list with `null` in it. -/
theorem handleRateLimitUpdated_throws_iff {client : LimitedClient} :
    (∃ thrown, client.handleRateLimitUpdated canClaim data = .error thrown) ↔
      ∃ config, data.get "rateLimit" = some (.arr config) ∧ .null ∈ config := by
  cases sent : data.get "rateLimit" with
  | some value =>
    cases value with
    | arr config =>
      have list : ∀ other : List JsonValue, some (JsonValue.arr config) = some (.arr other) ↔
        config = other := by simp
      simp only [list, exists_eq_left', ← normalizeReceived_throws_iff config client.rateLimit]
      unfold LimitedClient.handleRateLimitUpdated handleShared handleMetered
      simp only [sent]
      cases normalizeReceived config client.rateLimit with
      | error thrown => split <;> exact iff_of_true ⟨thrown, rfl⟩ ⟨thrown, rfl⟩
      | ok limits => split <;> exact iff_of_false (by rintro ⟨thrown, failed⟩; cases failed) (by rintro ⟨thrown, failed⟩; cases failed)
    | _ =>
      unfold LimitedClient.handleRateLimitUpdated handleShared handleMetered
      simp only [sent]
      split <;> simp
  | none =>
    unfold LimitedClient.handleRateLimitUpdated handleShared handleMetered
    simp only [sent]
    split <;> simp

theorem kept_spared (clients : LimitedClients) (name : String) :
    Option.Rel Spared (clients name) (clients name) := by
  cases clients name with
  | none => exact .none
  | some client => exact .some ⟨rfl, .inl rfl⟩

/-- What a message spares is decided at the client it names. -/
theorem update_spared {clientName : String} {client after : LimitedClient}
    (found : clients clientName = some client) :
    (∀ name, Option.Rel Spared (clients name) (Function.update clients clientName (some after) name)) ↔
      Spared client after := by
  constructor
  · intro spared
    have here := spared clientName
    rw [Function.update_self, found] at here
    cases here with
    | some spared => exact spared
  · intro spared name
    by_cases here : name = clientName
    · subst here
      rw [Function.update_self, found]
      exact .some spared
    · rw [Function.update_of_ne here]
      exact kept_spared clients name

theorem poisons_iff {clientName : String} {client : LimitedClient}
    (named : addressee parse clients message = some (clientName, client, data)) :
    Poisons parse clients message ↔
      client.shared = true ∧ ∃ entry, data.get "rateLimit" = some (.arr [entry]) ∧ Unusable entry := by
  constructor
  · rintro ⟨data', clientName', client', entry, read, given, found, shared, list, unusable⟩
    rw [addressee_some.mpr ⟨read, given, found⟩] at named
    cases named
    exact ⟨shared, entry, list, unusable⟩
  · rintro ⟨shared, entry, list, unusable⟩
    obtain ⟨read, given, found⟩ := addressee_some.mp named
    exact ⟨data, clientName, client, entry, read, given, found, shared, list, unusable⟩

/-- One message leaves every client's limits as they were or sound, unless it is poison. -/
theorem onMessage_spared (sound : clients.Sound) :
    (∀ name, Option.Rel Spared (clients name) ((onMessage canClaim parse clients message).clients name)) ↔
      ¬ Poisons parse clients message := by
  cases named : addressee parse clients message with
  | none =>
    rw [onMessage_none named]
    refine iff_of_true (kept_spared clients) ?_
    rintro ⟨data, clientName, client, entry, read, given, found, -⟩
    rw [addressee_some.mpr ⟨read, given, found⟩] at named
    cases named
  | some addressed =>
    obtain ⟨clientName, client, data⟩ := addressed
    obtain ⟨read, given, found⟩ := addressee_some.mp named
    have here := sound clientName client found
    rw [onMessage_some named, poisons_iff named]
    obtain ⟨shared, rateLimit⟩ := client
    cases shared with
    | false =>
      refine iff_of_true ?_ fun poison => Bool.false_ne_true poison.1
      cases handled : LimitedClient.handleRateLimitUpdated canClaim ⟨false, rateLimit⟩ data with
      | error thrown => exact kept_spared clients
      | ok received => exact (update_spared found).mpr ⟨rfl, handleMetered_sound handled⟩
    | true =>
      cases handled : LimitedClient.handleRateLimitUpdated canClaim ⟨true, rateLimit⟩ data with
      | error thrown =>
        refine iff_of_true (kept_spared clients) ?_
        rintro ⟨-, entry, list, shared, -⟩
        obtain ⟨config, again, null⟩ := handleRateLimitUpdated_throws_iff.mp ⟨thrown, handled⟩
        rw [list] at again
        cases again
        cases List.mem_singleton.mp null
        cases isSharedLimit_iff.mp shared
      | ok received =>
        refine (update_spared found).trans ?_
        rcases handleShared_spec here handled with ⟨same, usable⟩ | ⟨entry, list, decided⟩
        · refine iff_of_true ⟨rfl, .inl same⟩ ?_
          rintro ⟨-, entry, list, unusable⟩
          exact usable entry list unusable
        · constructor
          · rintro ⟨-, same | usable⟩ ⟨-, other, again, unusable⟩
            · rw [list] at again
              cases again
              have same : received.rateLimit = rateLimit := same
              rw [same] at decided
              exact decided.mp here unusable
            · rw [list] at again
              cases again
              exact decided.mp usable unusable
          · intro clean
            exact ⟨rfl, .inr (decided.mpr fun unusable => clean ⟨rfl, entry, list, unusable⟩)⟩

/-- What escapes of a message is what its handler throws. -/
theorem onMessage_unhandled : (onMessage canClaim parse clients message).unhandled ≠ none ↔
    Rejects parse clients message := by
  have escapes : (onMessage canClaim parse clients message).unhandled ≠ none ↔
      ∃ thrown, handleRateLimitUpdated canClaim parse clients message = .error thrown := by
    unfold onMessage
    cases handleRateLimitUpdated canClaim parse clients message with
    | ok handled => simp
    | error thrown => exact iff_of_true (by simp) ⟨thrown, rfl⟩
  rw [escapes]
  unfold handleRateLimitUpdated Rejects
  cases read : parse message with
  | none => simp
  | some data =>
    by_cases null : data = .null
    · subst null
      exact iff_of_true ⟨_, rfl⟩ (Or.inl rfl)
    simp only [property_returns null, bind, Except.bind, Option.some.injEq, null, false_or,
      exists_and_left, exists_eq_left']
    split
    · rename_i clientName given
      cases found : clients clientName with
      | none => simp [pure, Except.pure, given, found]
      | some client =>
        have addressed : (∃ config, data.get "rateLimit" = some (.arr config) ∧ .null ∈ config) ↔
            ∃ name, data.get "clientName" = some (.str name) ∧ ∃ other, clients name = some other ∧
              ∃ config, data.get "rateLimit" = some (.arr config) ∧ .null ∈ config := by
          simp [given, found]
        have fails : (∃ thrown, client.handleRateLimitUpdated canClaim data = .error thrown) ↔
            ∃ config, data.get "rateLimit" = some (.arr config) ∧ .null ∈ config :=
              handleRateLimitUpdated_throws_iff
        rw [← addressed, ← fails]
        cases handled : client.handleRateLimitUpdated canClaim data with
        | ok received => simp [pure, Except.pure, handled]
        | error thrown => simp [handled]
    · rename_i other
      refine iff_of_false (by simp [pure, Except.pure]) ?_
      rintro ⟨name, given, -⟩
      exact other name given

/-- One message hurts nobody unless it is poison or its handler throws on it. -/
theorem onMessage_harmless (sound : clients.Sound) :
    ((onMessage canClaim parse clients message).unhandled = none ∧
      ∀ name, Option.Rel Spared (clients name) ((onMessage canClaim parse clients message).clients name)) ↔
      ¬ Rejects parse clients message ∧ ¬ Poisons parse clients message :=
  and_congr (not_not.symm.trans (not_congr onMessage_unhandled)) (onMessage_spared sound)

/-- The messages of a run, none of them poison or thrown on when it arrives. -/
def Clean (canClaim : List JsonValue → Bool) (parse : String → Option JsonValue) (clients : LimitedClients) :
    List String → Prop
  | [] => True
  | message :: rest =>
    (¬ Rejects parse clients message ∧ ¬ Poisons parse clients message) ∧
      Clean canClaim parse (onMessage canClaim parse clients message).clients rest

theorem Spared.sound {before after : LimitedClient} (spared : Spared before after)
    (sound : before.Sound) : after.Sound := by
  obtain ⟨shared, same | usable⟩ := spared
  · obtain ⟨usable, kind⟩ := sound
    refine ⟨by rwa [same], ?_⟩
    rwa [shared, same]
  · exact usable

theorem onMessage_sound (sound : clients.Sound) (clean : ¬ Poisons parse clients message) :
    LimitedClients.Sound (onMessage canClaim parse clients message).clients := by
  intro name after found
  have spared : Option.Rel Spared (clients name) ((onMessage canClaim parse clients message).clients name) :=
    (onMessage_spared sound).mpr clean name
  rw [found] at spared
  generalize known : clients name = before at spared
  cases spared with
  | some spared => exact spared.sound (sound name _ known)

/-- A message on the channel leaves no rejection unhandled, and each client's limits as they were or a
list its class may have, unless its handler throws on it or it hands a `SharedLimitClient` a lone
`sharedLimit` that is unusable; and over a run of messages that do neither nothing is left unhandled
and every client's list stays one its class may have. -/
theorem broadcasts_spare_clients (canClaim : List JsonValue → Bool) (parse : String → Option JsonValue)
    (clients : LimitedClients) (sound : clients.Sound) :
    (∀ message,
      ((onMessage canClaim parse clients message).unhandled = none ∧
        ∀ name, Option.Rel Spared (clients name) ((onMessage canClaim parse clients message).clients name)) ↔
        ¬ Rejects parse clients message ∧ ¬ Poisons parse clients message) ∧
      ∀ messages, Clean canClaim parse clients messages →
        LimitedClients.Sound (deliver canClaim parse clients messages).1 ∧
          (deliver canClaim parse clients messages).2 = [] := by
  constructor
  · intro message
    exact onMessage_harmless sound
  · intro messages clean
    induction messages generalizing clients with
    | nil => exact ⟨sound, rfl⟩
    | cons message rest ih =>
      obtain ⟨handled, -⟩ : (onMessage canClaim parse clients message).unhandled = none ∧ _ :=
        (onMessage_harmless sound).mpr clean.1
      obtain ⟨later, none_⟩ := ih _ (onMessage_sound sound clean.1.2) clean.2
      exact ⟨later, by rw [deliver, handled, none_]; rfl⟩

/-- A client that borrows a parent's budget. -/
def borrower : LimitedClients := fun name =>
  if name = "child" then
    some ⟨true, [.obj [("type", .str "sharedLimit"), ("clientName", .str "parent"), ("name", .str "default")]]⟩
  else none

theorem borrower_sound : borrower.Sound := by
  intro name client found
  unfold borrower at found
  split at found
  · cases found
    exact ⟨rfl, _, rfl, rfl⟩
  · cases found

/-- `JSON.parse` of `null` and of three updates for the child: of no owner, of `null`, and of no list. -/
def ownerUpdate (text : String) : Option JsonValue :=
  if text = "null" then some .null
  else if text = "\x7b\"clientName\":\"child\",\"rateLimit\":[\x7b\"type\":\"sharedLimit\"\x7d]\x7d" then
    some (.obj [("clientName", .str "child"), ("rateLimit", .arr [.obj [("type", .str "sharedLimit")]])])
  else if text = "\x7b\"clientName\":\"child\",\"rateLimit\":[null]\x7d" then
    some (.obj [("clientName", .str "child"), ("rateLimit", .arr [.null])])
  else if text = "\x7b\"clientName\":\"child\",\"rateLimit\":null\x7d" then
    some (.obj [("clientName", .str "child"), ("rateLimit", .null)])
  else none

/-- An update that names no owner leaves the child with a list no client may be built with; `null`, and
an update of `null`, leave a rejection nothing handles. -/
theorem broadcast_poisons :
    borrower.Sound ∧
      (∃ after, (onMessage (fun _ => true) ownerUpdate borrower
          "\x7b\"clientName\":\"child\",\"rateLimit\":[\x7b\"type\":\"sharedLimit\"\x7d]\x7d").clients "child" = some after ∧
        receivedLimitsProblem after.rateLimit = some "invalid_rate_limit") ∧
      (onMessage (fun _ => true) ownerUpdate borrower "null").unhandled = some .readFromNull ∧
      (onMessage (fun _ => true) ownerUpdate borrower
          "\x7b\"clientName\":\"child\",\"rateLimit\":[null]\x7d").unhandled = some .readFromNull :=
  ⟨borrower_sound, ⟨_, rfl, rfl⟩, rfl, rfl⟩

theorem broadcasts_spare_clients_null :
    (onMessage (fun _ => true) ownerUpdate borrower "\x7b\"clientName\":\"child\",\"rateLimit\":null\x7d").unhandled = none ∧
      Option.Rel Spared (borrower "child")
        ((onMessage (fun _ => true) ownerUpdate borrower
          "\x7b\"clientName\":\"child\",\"rateLimit\":null\x7d").clients "child") := by
  have parsed : ∀ {data : JsonValue},
      ownerUpdate "\x7b\"clientName\":\"child\",\"rateLimit\":null\x7d" = some data →
      data = .obj [("clientName", .str "child"), ("rateLimit", .null)] := fun read => (Option.some.inj read).symm
  refine ((((broadcasts_spare_clients (fun _ => true) ownerUpdate borrower borrower_sound).1 _).mpr ⟨?_, ?_⟩).imp_right
    fun spared => spared "child")
  · rintro (null | ⟨data, clientName, client, config, read, given, found, list, -⟩)
    · cases parsed null
    · cases parsed read
      cases list
  · rintro ⟨data, clientName, client, entry, read, given, found, shared, list, unusable⟩
    cases parsed read
    cases list

end Handling

end Dianemo
