import Dianemo.JsonValue
import Dianemo.Registry

namespace Dianemo

/-- What stands for a value that is hidden. -/
def REDACTED : String := "[REDACTED]"

def sensitiveHeaderNames : List String :=
  ["authorization", "proxy-authorization", "www-authenticate", "proxy-authenticate",
    "x-payment-authorization-token",
    "x-api-key", "api-key", "apikey", "x-auth-token", "x-access-token", "x-session-token", "x-amz-security-token",
    "x-amz-signature", "x-goog-api-key", "x-functions-key", "x-csrf-token", "x-xsrf-token", "dd-api-key",
    "subscription-key", "ocp-apim-subscription-key", "private-token", "token", "cookie", "set-cookie"]

/-- What `SENSITIVE_KEY_PATTERN` matches, each `_?` written both ways. -/
def sensitiveKeys : List String :=
  ["client_secret", "clientsecret", "refresh_token", "refreshtoken", "access_token",
    "accesstoken", "id_token", "idtoken",
    "password", "passwd", "api_key", "apikey", "secret", "token", "sig", "signature", "code", "code_verifier",
    "codeverifier", "client_assertion", "clientassertion", "assertion", "private_key",
      "privatekey", "session", "auth",
    "key", "credential", "credentials", "passphrase"]

/-- The words `SENSITIVE_KEY_SUFFIX` ends in. -/
def sensitiveSuffixes : List String :=
  ["key", "secret", "token", "password", "passwd", "auth", "sig", "signature", "credential", "credentials"]

/-- The letters of a text as a pattern that ignores case reads them. -/
def ignoringCase (text : List Char) : List Char := text.map Char.toLower

section Names

variable (toLowerCase : String → String)

/-- `isSensitiveName`, of a field of a body. -/
def isSensitiveName (name : String) : Bool :=
  let lower := toLowerCase name
  let letters := ignoringCase lower.toList
  decide (lower ∈ sensitiveHeaderNames) || sensitiveKeys.any (fun key => letters = key.toList) ||
    sensitiveSuffixes.any fun word => "-_.".toList.any fun mark => decide ((mark :: word.toList) <:+ letters)

end Names

/-- `String.prototype.trim`, of a text's characters. -/
def trimmed (text : List Char) : List Char := (((text.dropWhile isSpace).reverse).dropWhile isSpace).reverse

theorem trimmed_eq_self {text : List Char} (free : ∀ c ∈ text, isSpace c = false) : trimmed text = text := by
  have front : text.dropWhile isSpace = text := by
    cases text with
    | nil => rfl
    | cons c rest => exact List.dropWhile_cons_of_neg (by simp [free c])
  have back : text.reverse.dropWhile isSpace = text.reverse := by
    cases reversed : text.reverse with
    | nil => rfl
    | cons c rest =>
      have member : c ∈ text := List.mem_reverse.mp (by rw [reversed]; exact List.mem_cons_self)
      exact List.dropWhile_cons_of_neg (by simp [free c member])
  rw [trimmed, front, back, List.reverse_reverse]

theorem head?_trimmed {text : List Char} {c : Char} (first : text.head? = some c) (solid : isSpace c = false) :
    (trimmed text).head? = some c := by
  obtain ⟨rest, rfl⟩ : ∃ rest, text = c :: rest := by
    cases text with
    | nil => cases first
    | cons d rest => exact ⟨rest, by rw [Option.some.inj first]⟩
  rw [trimmed, List.dropWhile_cons_of_neg (by simp [solid]), List.reverse_cons, List.dropWhile_append]
  split
  · rw [List.dropWhile_cons_of_neg (by simp [solid])]
    rfl
  · simp

theorem trimmed_of_ends {text : List Char} (first : ∀ c ∈ text.head?, isSpace c = false)
    (last : ∀ c ∈ text.getLast?, isSpace c = false) : trimmed text = text := by
  have kept : ∀ {list : List Char}, (∀ c ∈ list.head?, isSpace c = false) → list.dropWhile isSpace = list := by
    intro list solid
    cases list with
    | nil => rfl
    | cons c rest => exact List.dropWhile_cons_of_neg (by simp [solid c (by simp)])
  rw [trimmed, kept first, kept (by rwa [List.head?_reverse]), List.reverse_reverse]

/-- `/^(bearer|basic|token|negotiate)\s+\S+/i`. -/
def schemePattern (text : List Char) : Bool :=
  ["bearer", "basic", "token", "negotiate"].any fun word =>
    decide (word.toList <+: ignoringCase text) &&
      let rest := text.drop word.length
      rest.head?.any isSpace && (rest.dropWhile isSpace).length ≠ 0

def isWordChar (c : Char) : Bool := c.isAlphanum || c = '_'

/-- `/^eyJ[\w-]+\.[\w-]+\.[\w-]*$/`. -/
def jwtPattern (text : List Char) : Bool :=
  decide ("eyJ".toList <+: text) &&
    match (text.drop 3).splitOn '.' with
    | [a, b, c] => a ≠ [] && b ≠ [] && (a ++ b ++ c).all fun char => isWordChar char || char = '-'
    | _ => false

/-- A credential that is some letters in front and then so many characters of a kind. -/
structure KeyPattern where
  lead : String
  kind : Char → Bool
  count : ℕ → Bool

def KeyPattern.test (pattern : KeyPattern) (text : List Char) : Bool :=
  decide (pattern.lead.toList <+: text) &&
    let rest := text.drop pattern.lead.length
    rest.all pattern.kind && pattern.count rest.length

def isKeyChar (c : Char) : Bool := c.isAlphanum || c = '_' || c = '-'

/-- The patterns of `SENSITIVE_VALUE_PATTERNS` from the third on. -/
def keyPatterns : List KeyPattern :=
  [⟨"sk-", isKeyChar, fun n => 16 ≤ n⟩, ⟨"ghp_", Char.isAlphanum, fun n => 20 ≤ n⟩] ++
    "bpasr".toList.map (fun kind => ⟨"xox" ++ String.singleton kind ++ "-", fun c => c.isAlphanum || c = '-', fun n => 10 ≤ n⟩) ++
    [⟨"shpat_", Char.isAlphanum, fun n => 20 ≤ n⟩, ⟨"AKIA", fun c => c.isDigit || c.isUpper, fun n => n = 16⟩,
      ⟨"AIza", isKeyChar, fun n => n = 35⟩]

def looksSensitive (value : String) : Bool :=
  let text := trimmed value.toList
  schemePattern text || jwtPattern text || keyPatterns.any fun pattern => pattern.test text

namespace JsonValue

mutual

/-- At most the length of a text the value is written in. -/
def weight : JsonValue → ℕ
  | .str s => s.length + 2
  | .arr items => itemsWeight items + 1
  | .obj fields => fieldsWeight fields + 1
  | _ => 1

def itemsWeight : List JsonValue → ℕ
  | [] => 0
  | item :: rest => item.weight + itemsWeight rest + 1

def fieldsWeight : List (String × JsonValue) → ℕ
  | [] => 0
  | (_, value) :: rest => value.weight + fieldsWeight rest + 3

end

/-- An object or an array. -/
def isContainer : JsonValue → Bool
  | .arr _ => true
  | .obj _ => true
  | _ => false

end JsonValue

/-- `JSON.parse`, `none` where it throws, and `JSON.stringify`: a container is written between
brackets, and a text between quotes, without an `=` that is not its own. -/
structure JsonCodec where
  parse : String → Option JsonValue
  stringify : JsonValue → String
  short : ∀ text value, parse text = some value → value.weight ≤ text.length
  placeholder : parse REDACTED = none
  bracketed : ∀ value, value.isContainer = true →
    ((stringify value).toList.head? = some '{' ∨ (stringify value).toList.head? = some '[') ∧
      ∀ c ∈ (stringify value).toList.getLast?, isSpace c = false
  quoted : ∀ s, (stringify (.str s)).toList.head? = some '"' ∧ ('=' ∈ (stringify (.str s)).toList → '=' ∈ s.toList)

/-- `encodeURIComponent` and `decodeURIComponent`, `none` where it throws. -/
structure PercentCoding where
  encode : String → String
  decode : String → Option String
  placeholder : decode REDACTED = some REDACTED

namespace PercentCoding

variable (coding : PercentCoding)

/-- `safeDecode`. -/
def safeDecode (value : String) : String :=
  (coding.decode (String.ofList (value.toList.map fun c => if c = '+' then ' ' else c))).getD value

end PercentCoding

/-- What stands before the first `=` of a pair, and what after it. -/
def pairParts (pair : String) : Option (String × String) :=
  match pair.toList.dropWhile (fun c => c ≠ '=') with
  | [] => none
  | _ :: raw => some (String.ofList (pair.toList.takeWhile fun c => c ≠ '='), String.ofList raw)

section Form

variable (toLowerCase : String → String) (coding : PercentCoding)

/-- Whether `redactFormEncoded` hides a pair's value. -/
def hidesPair (name raw : String) : Bool :=
  isSensitiveName toLowerCase (coding.safeDecode name) || looksSensitive (coding.safeDecode raw)

/-- A pair as `redactFormEncoded` puts it. -/
def redactPair (pair : String) : String :=
  match pairParts pair with
  | none => pair
  | some (name, raw) => if hidesPair toLowerCase coding name raw then name ++ "=" ++ REDACTED else pair

def redactFormEncoded (value : String) : String :=
  if '=' ∉ value.toList then value
  else
    let pairs := Segments.split '&' value
    let touched := pairs.any fun pair => (pairParts pair).any fun parts =>
      hidesPair toLowerCase coding parts.1 parts.2
    if touched then "&".intercalate (pairs.map (redactPair toLowerCase coding)) else value

end Form

namespace JsonCodec

variable (codec : JsonCodec)

/-- What `redactJsonString` parses a string into: an object or an array. -/
def jsonText (value : String) : Option JsonValue :=
  let text := trimmed value.toList
  if text.head? = some '{' ∨ text.head? = some '[' then
    (codec.parse (String.ofList text)).filter JsonValue.isContainer
  else none

theorem trimmed_length (text : List Char) : (trimmed text).length ≤ text.length := by
  have front := (List.dropWhile_suffix isSpace (l := text)).length_le
  have back := (List.dropWhile_suffix isSpace (l := (text.dropWhile isSpace).reverse)).length_le
  rw [trimmed, List.length_reverse]
  rw [List.length_reverse] at back
  omega

theorem jsonText_weight {value : String} {parsed : JsonValue} (read : codec.jsonText value = some parsed) :
    parsed.weight ≤ value.length := by
  rw [jsonText] at read
  split at read
  · have short := codec.short _ _ (Option.eq_some_of_filter_eq_some read)
    have cut := trimmed_length value.toList
    rw [String.length_ofList] at short
    rw [String.length_toList] at cut
    omega
  · cases read

end JsonCodec

section Body

variable (toLowerCase : String → String) (coding : PercentCoding) (codec : JsonCodec)

mutual

/-- `redactBody` of a string. -/
def redactString (value : String) : String :=
  if looksSensitive value then REDACTED
  else
    match _ : codec.jsonText value with
    | some parsed => codec.stringify (redactValue parsed)
    | none => redactFormEncoded toLowerCase coding value
termination_by value.length + 1
decreasing_by
  have within := codec.jsonText_weight ‹_›
  omega

/-- `redactBody`. -/
def redactValue : JsonValue → JsonValue
  | .str s => .str (redactString s)
  | .arr items => .arr (redactItems items)
  | .obj fields => .obj (redactFields fields)
  | value => value
termination_by value => value.weight
decreasing_by all_goals (simp only [JsonValue.weight]; omega)

def redactItems : List JsonValue → List JsonValue
  | [] => []
  | item :: rest => redactValue item :: redactItems rest
termination_by items => JsonValue.itemsWeight items
decreasing_by all_goals (simp only [JsonValue.itemsWeight]; omega)

/-- An assignment to `__proto__` leaves the copy without such a field. -/
def redactFields : List (String × JsonValue) → List (String × JsonValue)
  | [] => []
  | (name, value) :: rest =>
    if name = "__proto__" then redactFields rest
    else
      (name, if isSensitiveName toLowerCase name then .str REDACTED else redactValue value) :: redactFields rest
termination_by fields => JsonValue.fieldsWeight fields
decreasing_by all_goals (simp only [JsonValue.fieldsWeight]; omega)

end

end Body

end Dianemo
