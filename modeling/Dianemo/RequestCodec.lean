import Dianemo.Cost
import Dianemo.Redact

namespace Dianemo

open JsNumber

/-- An object of strings, or a hash: its properties in order, each name once. -/
abbrev Metadata := List (String × String)

namespace Metadata

/-- An own property given a value: what `Object.fromEntries` does, and `metadata[name] = value`
for every name but one. -/
def define (metadata : Metadata) (name value : String) : Metadata :=
  if metadata.any fun field => field.1 = name then
    metadata.map fun field => if field.1 = name then (name, value) else field
  else metadata ++ [(name, value)]

/-- `metadata[name] = value` on an object literal. A text assigned to `__proto__` is ignored. -/
def assign (metadata : Metadata) (name value : String) : Metadata :=
  if name = "__proto__" then metadata else metadata.define name value

/-- `Object.fromEntries`. -/
def fromEntries (entries : List (String × String)) : Metadata :=
  entries.foldl (fun metadata entry => metadata.define entry.1 entry.2) []

variable {metadata : Metadata} {name value other : String} {entries : List (String × String)}

theorem lookup_define : (metadata.define name value).lookup other = if other = name then some value else
    metadata.lookup other := by
  by_cases present : (metadata.any fun field => field.1 = name) = true
  · simp only [define, if_pos present, JsonValue.lookup_replace]
  · have absent := JsonValue.lookup_eq_none_of_any metadata present
    simp only [define, if_neg present, List.lookup_append]
    by_cases asked : other = name
    · subst asked
      simp [absent]
    · have apart : (other == name) = false := by simpa using asked
      simp [List.lookup_cons, apart, asked]

theorem lookup_assign (ordinary : other ≠ "__proto__") :
    (metadata.assign name value).lookup other = if other = name then some value else metadata.lookup other := by
  unfold assign
  split
  · rename_i ignored
    rw [if_neg (fun same => ordinary (same.trans ignored))]
  · exact lookup_define

/-- After a run of writes a property holds what was last written to it. -/
theorem lookup_foldl {write : Metadata → String → String → Metadata}
    (writes : ∀ metadata name value,
      (write metadata name value).lookup other = if other = name then some value else metadata.lookup other) :
    (entries.foldl (fun metadata entry => write metadata entry.1 entry.2) metadata).lookup other =
      (entries.reverse.lookup other).or (metadata.lookup other) := by
  induction entries generalizing metadata with
  | nil => rfl
  | cons entry rest ih =>
    obtain ⟨key, value⟩ := entry
    rw [List.foldl_cons, ih, writes, List.reverse_cons, List.lookup_append, Option.or_assoc]
    congr 1
    by_cases asked : other = key
    · simp [asked]
    · have apart : (other == key) = false := by simpa using asked
      simp [List.lookup_cons, apart, asked]

theorem lookup_fromEntries : (fromEntries entries).lookup other = entries.reverse.lookup other := by
  rw [fromEntries, lookup_foldl fun _ _ _ => lookup_define, List.lookup_nil, Option.or_none]

end Metadata

namespace RequestCodec

/-- A queue entry as an object, its cost as the JSON value it is. -/
structure QueuedRequest where
  requestId : String
  clientName : String
  requestName : String
  status : String
  priority : JsNumber
  cost : JsonValue
  retries : JsNumber
  timestamp : JsNumber
  grantId : Option String
  isThawRequest : Bool
  settles : Option Bool
  ownerId : String
  claimedAt : Option JsNumber

/-- `raw || fallback`, of a number. -/
def orNumber (x fallback : JsNumber) : JsNumber := if x = 0 ∨ x = nan then fallback else x

/-- A property's value where it is truthy: present and not empty. -/
def truthy (raw : Option String) : Option String := raw.filter fun s => s ≠ ""

section ParseStored

variable (js : Conversions)

/-- `STRTOD_INFINITY`, and the infinity its match stands for. -/
def strtodInfinity (raw : String) : Option JsNumber :=
  let read (infinity : JsNumber) (word : List Char) : Option JsNumber :=
    if ignoringCase word = "inf".toList ∨ ignoringCase word = "infinity".toList then some infinity else none
  match trimmed raw.toList with
  | '-' :: word => read negInf word
  | '+' :: word => read posInf word
  | word => read posInf word

def parseStoredNumber (raw : Option String) (fallback : JsNumber) : JsNumber :=
  match raw with
  | none => fallback
  | some raw =>
    if trimmed raw.toList = [] then fallback
    else match strtodInfinity raw with
      | some infinity => infinity
      | none => if js.number raw = nan then fallback else js.number raw

def parsePriority (raw : Option String) : JsNumber :=
  let parsed := parseStoredNumber js raw 1
  if parsed.isFinite then parsed else 1

def formatStoredCost (cost : JsonValue) : String :=
  match cost with
  | .num x => js.string x
  | _ => js.stringify cost

/-- `raw.trimStart().startsWith("\x7b")`. -/
def startsAsObject (raw : String) : Bool := (raw.toList.dropWhile isSpace).head? = some '{'

def parseStoredCost (raw : Option String) : JsonValue :=
  match raw.filter startsAsObject with
  | none => .num (orNumber (js.parseFloat (raw.getD "")) 1)
  | some raw =>
    match js.parse raw with
    | some (.obj fields) => .obj fields
    | _ => .num nan

/-- `parseInt(raw, 10) || 0`; what is absent is parsed as the text `undefined`. -/
def parseCount (raw : Option String) : JsNumber := orNumber (js.parseInt (raw.getD "undefined")) 0

end ParseStored

section Codec

variable (js : Conversions)

/-- The pairs of a flat list. -/
def pairs : List String → List (String × String)
  | name :: value :: rest => (name, value) :: pairs rest
  | _ => []

/-- Lua's `HGETALL` as a field map; `none` for `null`, and for what is no array. -/
def decodeFlatHash (arr : Option (List String)) : Option Metadata :=
  match arr with
  | none => none
  | some arr =>
    if arr.length = 0 ∨ arr.length % 2 ≠ 0 then none
    else some ((pairs arr).foldl (fun metadata field => metadata.assign field.1 field.2) [])

/-- The Redis backend's decoder. -/
def decodeRequest (metadata : Option Metadata) : Option QueuedRequest :=
  match metadata with
  | none => none
  | some metadata =>
    match truthy (metadata.lookup "requestId"), truthy (metadata.lookup "clientName"),
        metadata.lookup "requestName", truthy (metadata.lookup "status") with
    | some requestId, some clientName, some requestName, some status =>
      let claimedAt := parseStoredNumber js (metadata.lookup "claimedAt") nan
      some {
        requestId := requestId
        clientName := clientName
        requestName := requestName
        status := status
        priority := parsePriority js (metadata.lookup "priority")
        cost := parseStoredCost js (metadata.lookup "cost")
        retries := parseCount js (metadata.lookup "retries")
        timestamp := parseCount js (metadata.lookup "timestamp")
        grantId := truthy (metadata.lookup "grantId")
        isThawRequest := metadata.lookup "isThawRequest" = some "true"
        settles := if metadata.lookup "settles" = some "true" then some true else none
        ownerId := (metadata.lookup "ownerId").getD ""
        claimedAt := if claimedAt.isFinite then some claimedAt else none }
    | _, _, _, _ => none

/-- The Redis backend's encoder: the argument list of `HSET`. -/
def encodeRequestFields (request : QueuedRequest) : List String :=
  let fields : List (String × String) := [
    ("requestId", request.requestId),
    ("clientName", request.clientName),
    ("requestName", request.requestName),
    ("status", request.status),
    ("priority", js.string request.priority),
    ("cost", formatStoredCost js request.cost),
    ("retries", js.string request.retries),
    ("timestamp", js.string request.timestamp),
    ("grantId", request.grantId.getD ""),
    ("isThawRequest", if request.isThawRequest then "true" else "false"),
    ("ownerId", request.ownerId)] ++ if request.settles = some true then [("settles", "true")] else []
  fields.flatMap fun field => [field.1, field.2]

/-- The memory backend's decoder. -/
def toQueued (metadata : Metadata) : Option QueuedRequest :=
  match truthy (metadata.lookup "requestId"), truthy (metadata.lookup "clientName"),
      metadata.lookup "requestName", truthy (metadata.lookup "status") with
  | some requestId, some clientName, some requestName, some status =>
    let claimedAt := parseStoredNumber js (metadata.lookup "claimedAt") nan
    some {
      requestId := requestId
      clientName := clientName
      requestName := requestName
      status := status
      priority := parsePriority js (metadata.lookup "priority")
      cost := parseStoredCost js (metadata.lookup "cost")
      retries := parseCount js (metadata.lookup "retries")
      timestamp := parseCount js (metadata.lookup "timestamp")
      grantId := truthy (metadata.lookup "grantId")
      isThawRequest := metadata.lookup "isThawRequest" = some "true"
      settles := if metadata.lookup "settles" = some "true" then some true else none
      ownerId := (metadata.lookup "ownerId").getD ""
      claimedAt := if claimedAt.isFinite then some claimedAt else none }
  | _, _, _, _ => none

/-- The hash the memory backend's `addRequest` writes, field by field. -/
def addedHash (request : QueuedRequest) : List (String × String) :=
  [("requestId", request.requestId),
    ("clientName", request.clientName),
    ("requestName", request.requestName),
    ("status", request.status),
    ("priority", js.string request.priority),
    ("cost", formatStoredCost js request.cost),
    ("retries", js.string request.retries),
    ("timestamp", js.string request.timestamp),
    ("grantId", request.grantId.getD ""),
    ("isThawRequest", if request.isThawRequest then "true" else "false")] ++
  (if request.settles = some true then [("settles", "true")] else []) ++ [("ownerId", request.ownerId)]

end Codec

section Agreement

variable {js : Conversions} {metadata metadata' : Metadata} {hash : List (String × String)}

/-- A hash as the flat list `HGETALL` gives. -/
def flat (hash : List (String × String)) : List String := hash.flatMap fun field => [field.1, field.2]

theorem pairs_flat : pairs (flat hash) = hash := by
  induction hash with
  | nil => rfl
  | cons field rest ih => exact congrArg (field :: ·) ih

theorem flat_length : (flat hash).length = 2 * hash.length := by
  induction hash with
  | nil => rfl
  | cons field rest ih =>
    have step : (flat (field :: rest)).length = (flat rest).length + 2 := rfl
    rw [step, ih, List.length_cons]
    ring

theorem decodeFlatHash_flat : decodeFlatHash (some (flat hash)) =
    if hash = [] then none else
      some (hash.foldl (fun metadata field => Metadata.assign metadata field.1 field.2) []) := by
  rw [decodeFlatHash, pairs_flat, flat_length]
  by_cases empty : hash = []
  · simp [empty]
  · have some_ : hash.length ≠ 0 := fun none_ => empty (List.length_eq_zero_iff.mp none_)
    rw [if_neg empty, if_neg (by omega)]

/-- The two decoders are one function of the field map. -/
theorem decodeRequest_eq : decodeRequest js (some metadata) = toQueued js metadata := rfl

theorem toQueued_congr (same : ∀ name, name ≠ "__proto__" → metadata.lookup name = metadata'.lookup name) :
    toQueued js metadata = toQueued js metadata' := by
  simp only [toQueued, same "requestId" (by decide), same "clientName" (by decide), same "requestName" (by decide),
    same "status" (by decide), same "priority" (by decide), same "cost" (by decide), same "retries" (by decide),
    same "timestamp" (by decide), same "grantId" (by decide), same "isThawRequest" (by decide),
    same "settles" (by decide), same "ownerId" (by decide), same "claimedAt" (by decide)]

/-- Whatever a hash holds, the two backends read it alike. -/
theorem decoders_agree (hash : List (String × String)) :
    decodeRequest js (decodeFlatHash (some (flat hash))) = toQueued js (Metadata.fromEntries hash) := by
  rw [decodeFlatHash_flat]
  split
  · rename_i empty
    subst empty
    rfl
  · rw [decodeRequest_eq]
    refine toQueued_congr ?_
    intro name ordinary
    rw [Metadata.lookup_fromEntries, Metadata.lookup_foldl fun _ _ _ =>
      Metadata.lookup_assign ordinary, List.lookup_nil, Option.or_none]

end Agreement

section RoundTrip

variable {js : Conversions} {request : QueuedRequest} {metadata : Metadata}

/-- A text such as a finite number prints as. -/
def Numeral (text : String) : Prop := text ≠ "" ∧ ∀ c ∈ text.toList, c ∈ "0123456789.e+-".toList

/-- What the codec is asked to carry. -/
structure Storable (js : Conversions) (request : QueuedRequest) : Prop where
  requestId : request.requestId ≠ ""
  clientName : request.clientName ≠ ""
  status : request.status = "pending" ∨ request.status = "inProgress"
  priority : ∃ z : ℤ, request.priority = fin z
  retries : ∃ n : ℕ, request.retries = fin n
  timestamp : ∃ n : ℕ, request.timestamp = fin n
  grantId : request.grantId ≠ some ""
  settles : request.settles = none ∨ request.settles = some true
  claimedAt : request.claimedAt = none
  cost : unusableCostReason js request.cost = none

/-- The numbers and the cost of a request print as numbers and objects do, and read back as themselves. -/
structure RoundTrips (js : Conversions) (request : QueuedRequest) : Prop where
  priority : Numeral (js.string request.priority) ∧ js.number (js.string request.priority) = request.priority
  retries : js.parseInt (js.string request.retries) = request.retries
  timestamp : js.parseInt (js.string request.timestamp) = request.timestamp
  amount : ∀ x, request.cost = .num x → Numeral (js.string x) ∧ js.parseFloat (js.string x) = x
  amounts : ∀ fields, request.cost = .obj fields →
    (js.stringify request.cost).toList.head? = some '{' ∧ js.parse (js.stringify request.cost) = some request.cost

/-- A field map says of each property of the request what the encoders write for it. -/
structure Written (js : Conversions) (request : QueuedRequest) (metadata : Metadata) : Prop where
  requestId : metadata.lookup "requestId" = some request.requestId
  clientName : metadata.lookup "clientName" = some request.clientName
  requestName : metadata.lookup "requestName" = some request.requestName
  status : metadata.lookup "status" = some request.status
  priority : metadata.lookup "priority" = some (js.string request.priority)
  cost : metadata.lookup "cost" = some (formatStoredCost js request.cost)
  retries : metadata.lookup "retries" = some (js.string request.retries)
  timestamp : metadata.lookup "timestamp" = some (js.string request.timestamp)
  grantId : metadata.lookup "grantId" = some (request.grantId.getD "")
  isThawRequest : metadata.lookup "isThawRequest" = some (if request.isThawRequest then "true" else "false")
  settles : metadata.lookup "settles" = if request.settles = some true then some "true" else none
  ownerId : metadata.lookup "ownerId" = some request.ownerId
  claimedAt : metadata.lookup "claimedAt" = none

theorem Numeral.no_space {text : String} (numeral : Numeral text) : ∀ c ∈ text.toList, isSpace c = false := by
  intro c member
  have plain := List.all_eq_true.mp
    (show ("0123456789.e+-".toList.all fun c => !isSpace c) = true by decide +kernel) c (numeral.2 c member)
  simpa using plain

theorem Numeral.toList_ne {text : String} (numeral : Numeral text) : text.toList ≠ [] := by
  intro empty
  exact numeral.1 (String.toList_eq_nil_iff.mp empty)

/-- No number prints with the letter an infinity's name starts with. -/
theorem Numeral.strtodInfinity {text : String} (numeral : Numeral text) : strtodInfinity text = none := by
  have letters : ∀ word : List Char, word ⊆ text.toList →
      ¬ (ignoringCase word = "inf".toList ∨ ignoringCase word = "infinity".toList) := by
    intro word within named
    have opens : (ignoringCase word).head? = some 'i' := by
      rcases named with named | named
      · rw [named]; decide
      · rw [named]; decide
    rw [ignoringCase, List.head?_map, Option.map_eq_some_iff] at opens
    obtain ⟨c, first, lower⟩ := opens
    have plain := List.all_eq_true.mp
      (show ("0123456789.e+-".toList.all fun c => c.toLower ≠ 'i') = true by decide +kernel) c
      (numeral.2 c (within (List.mem_of_mem_head? first)))
    simp [lower] at plain
  rw [RequestCodec.strtodInfinity, trimmed_eq_self numeral.no_space]
  dsimp only
  split
  · rename_i word shape
    rw [if_neg (letters word (by rw [shape]; exact List.subset_cons_self _ _))]
  · rename_i word shape
    rw [if_neg (letters word (by rw [shape]; exact List.subset_cons_self _ _))]
  · rw [if_neg (letters _ (List.Subset.refl _))]

theorem parsePriority_string {q : ℚ} (numeral : Numeral (js.string (fin q)))
    (reads : js.number (js.string (fin q)) = fin q) : parsePriority js (some (js.string (fin q))) = fin q := by
  have solid : trimmed (js.string (fin q)).toList ≠ [] := by
    rw [trimmed_eq_self numeral.no_space]
    exact numeral.toList_ne
  simp [parsePriority, parseStoredNumber, if_neg solid, numeral.strtodInfinity, reads]

theorem parseCount_string {n : ℕ} {x : JsNumber} (natural : x = fin n) (reads : js.parseInt (js.string x) = x) :
    parseCount js (some (js.string x)) = x := by
  rw [parseCount, Option.getD_some, reads, natural, orNumber]
  split
  · rename_i zero
    rcases zero with zero | nan_
    · exact zero.symm
    · cases nan_
  · rfl

theorem Numeral.not_object {text : String} (numeral : Numeral text) : startsAsObject text = false := by
  have front : text.toList.dropWhile isSpace = text.toList := by
    cases chars : text.toList with
    | nil => rfl
    | cons c rest =>
      exact List.dropWhile_cons_of_neg (by simp [numeral.no_space c (by simp [chars])])
  rw [startsAsObject, front]
  simp only [decide_eq_false_iff_not]
  intro opens
  have digit := numeral.2 '{' (List.mem_of_mem_head? opens)
  revert digit
  decide

theorem startsAsObject_of_head {text : String} (opens : text.toList.head? = some '{') :
    startsAsObject text = true := by
  obtain ⟨rest, chars⟩ : ∃ rest, text.toList = '{' :: rest := by
    cases chars : text.toList with
    | nil => simp [chars] at opens
    | cons c rest => exact ⟨rest, by simpa [chars] using opens⟩
  have solid : isSpace '{' = false := by decide
  rw [startsAsObject, chars, List.dropWhile_cons_of_neg (by simp [solid])]
  rfl

/-- A cost that can be spent reads back as itself, a number as a number and amounts as amounts. -/
theorem parseStoredCost_format (spendable : unusableCostReason js request.cost = none)
    (trips : RoundTrips js request) :
    parseStoredCost js (some (formatStoredCost js request.cost)) = request.cost := by
  cases cost : request.cost with
  | num x =>
    obtain ⟨numeral, reads⟩ := trips.amount x cost
    have positive : orNumber x 1 = x := by
      rw [cost, unusableCostReason] at spendable
      cases x with
      | fin q =>
        have floor : epsilon ≤ q := by
          by_contra below
          simp [below] at spendable
        have apart : q ≠ 0 := by
          rintro rfl
          exact absurd floor (by norm_num [epsilon])
        simp [orNumber, apart]
      | posInf => simp [isFinite] at spendable
      | negInf => simp [isFinite] at spendable
      | nan => simp [isFinite] at spendable
    rw [one_eq] at positive
    simp [parseStoredCost, formatStoredCost, Option.filter_some, numeral.not_object, reads, positive]
  | obj fields =>
    obtain ⟨opens, reads⟩ := trips.amounts fields cost
    rw [cost] at opens reads
    simp [parseStoredCost, formatStoredCost, Option.filter_some, startsAsObject_of_head opens, reads]
  | null => simp [cost, unusableCostReason] at spendable
  | bool => simp [cost, unusableCostReason] at spendable
  | str => simp [cost, unusableCostReason] at spendable
  | arr => simp [cost, unusableCostReason] at spendable

theorem truthy_of_ne {s : String} (solid : s ≠ "") : truthy (some s) = some s := by simp [truthy, solid]

/-- A field map the encoders could have written decodes to the request they were given. -/
theorem Written.toQueued (written : Written js request metadata) (storable : Storable js request)
    (trips : RoundTrips js request) : toQueued js metadata = some request := by
  obtain ⟨z, integer⟩ := storable.priority
  obtain ⟨n, tries⟩ := storable.retries
  obtain ⟨m, arrival⟩ := storable.timestamp
  have labelled : request.status ≠ "" := by
    rcases storable.status with status | status
    · rw [status]; decide
    · rw [status]; decide
  have priority : parsePriority js (some (js.string request.priority)) = request.priority := by
    have known := trips.priority
    rw [integer] at known ⊢
    exact parsePriority_string known.1 known.2
  have grant : truthy (some (request.grantId.getD "")) = request.grantId := by
    cases grantId : request.grantId with
    | none => rfl
    | some grant =>
      have solid : grant ≠ "" := by
        rintro rfl
        exact storable.grantId grantId
      exact truthy_of_ne solid
  have thaw : decide ((some (if request.isThawRequest then "true" else "false") : Option String) = some "true") =
      request.isThawRequest := by
    cases request.isThawRequest <;> decide
  have settles : (if (if request.settles = some true then some "true" else none : Option String) = some "true"
      then some true else none) = request.settles := by
    rcases storable.settles with settles | settles
    · rw [settles]; rfl
    · rw [settles]; rfl
  rw [RequestCodec.toQueued, written.requestId, written.clientName, written.requestName, written.status,
    truthy_of_ne storable.requestId, truthy_of_ne storable.clientName, truthy_of_ne labelled]
  simp only [written.priority, written.cost, written.retries, written.timestamp,
    written.grantId, written.isThawRequest,
    written.settles, written.ownerId, written.claimedAt, priority, parseStoredCost_format storable.cost trips,
    parseCount_string tries trips.retries, parseCount_string arrival trips.timestamp, grant, thaw, settles,
    Option.getD_some]
  have unclaimed := storable.claimedAt
  obtain ⟨⟩ := request
  simp only [Option.some.injEq, QueuedRequest.mk.injEq, true_and]
  exact unclaimed.symm

/-- The fields the Redis encoder flattens. -/
def encodedFields (js : Conversions) (request : QueuedRequest) : List (String × String) :=
  [("requestId", request.requestId), ("clientName", request.clientName), ("requestName", request.requestName),
    ("status", request.status), ("priority", js.string request.priority),
      ("cost", formatStoredCost js request.cost),
    ("retries", js.string request.retries), ("timestamp", js.string request.timestamp),
    ("grantId", request.grantId.getD ""), ("isThawRequest", if request.isThawRequest then "true" else "false"),
    ("ownerId", request.ownerId)] ++ if request.settles = some true then [("settles", "true")] else []

theorem encodeRequestFields_eq : encodeRequestFields js request = flat (encodedFields js request) := rfl

theorem written_encodedFields : Written js request (Metadata.fromEntries (encodedFields js request)) := by
  constructor <;> rw [Metadata.lookup_fromEntries, encodedFields] <;>
    by_cases settles : request.settles = some true <;>
    simp [settles, List.lookup_cons]

theorem written_addedHash : Written js request (Metadata.fromEntries (addedHash js request)) := by
  constructor <;> rw [Metadata.lookup_fromEntries, addedHash] <;> by_cases settles : request.settles = some true <;>
    simp [settles, List.lookup_cons]

/-- Both encoders are undone by their decoders, and the two decoders read every hash alike,
as one request or both as none. -/
theorem codec_round_trips (js : Conversions) :
    (∀ request, Storable js request → RoundTrips js request →
      decodeRequest js (decodeFlatHash (some (encodeRequestFields js request))) = some request ∧
        toQueued js (Metadata.fromEntries (addedHash js request)) = some request) ∧
      (∀ hash, decodeRequest js (decodeFlatHash (some (flat hash))) = toQueued js (Metadata.fromEntries hash)) ∧
      ∀ metadata, decodeRequest js (some metadata) = toQueued js metadata := by
  refine ⟨?_, decoders_agree, fun metadata => decodeRequest_eq⟩
  intro request storable trips
  constructor
  · rw [encodeRequestFields_eq, decoders_agree]
    exact written_encodedFields.toQueued storable trips
  · exact written_addedHash.toQueued storable trips

/-- A request of two budgets, queued on behalf of a tenant. -/
def tenantRequest : QueuedRequest where
  requestId := "r-1"
  clientName := "acme:global:main"
  requestName := ""
  status := "inProgress"
  priority := 5
  cost := .obj [("rpm", .num 1), ("tpm", .num 250)]
  retries := 2
  timestamp := 1767225600500
  grantId := some "tenant"
  isThawRequest := true
  settles := some true
  ownerId := "replica"
  claimedAt := none

/-- A text of digits as the number it is. -/
def readDigits (raw : String) : JsNumber := fin (raw.toList.foldl (fun n c => 10 * n + (c.toNat - '0'.toNat)) 0 : ℕ)

/-- The conversions of natural numbers, and of the one cost of that request. -/
def wholeConversions : Conversions where
  string x := toString x.toRat.num
  number := readDigits
  parseInt := readDigits
  parseFloat := readDigits
  stringify _ := "\x7b\"rpm\":1,\"tpm\":250\x7d"
  parse text := if text = "\x7b\"rpm\":1,\"tpm\":250\x7d" then some tenantRequest.cost else none

theorem codec_round_trips_tenant :
    decodeRequest wholeConversions (decodeFlatHash (some (encodeRequestFields wholeConversions tenantRequest))) =
        some tenantRequest ∧
      toQueued wholeConversions (Metadata.fromEntries (addedHash wholeConversions tenantRequest)) =
        some tenantRequest := by
  have storable : Storable wholeConversions tenantRequest :=
    { requestId := by decide
      clientName := by decide
      status := .inr rfl
      priority := ⟨5, rfl⟩
      retries := ⟨2, rfl⟩
      timestamp := ⟨1767225600500, rfl⟩
      grantId := by decide
      settles := .inr rfl
      claimedAt := rfl
      cost := by decide +kernel }
  have trips : RoundTrips wholeConversions tenantRequest :=
    { priority := ⟨⟨by decide +kernel, List.forall_iff_forall_mem.mp (by decide +kernel)⟩, by decide +kernel⟩
      retries := by decide +kernel
      timestamp := by decide +kernel
      amount := fun _ cost => nomatch cost
      amounts := fun _ _ => ⟨by decide +kernel, by simp [wholeConversions]⟩ }
  exact (codec_round_trips wholeConversions).1 tenantRequest storable trips

end RoundTrip

end RequestCodec

end Dianemo
