import Dianemo.Redaction

namespace Dianemo

/-- A flat record: its string fields, in order. -/
abbrev TextRecord := List (String × String)

/-- A record as the object it is. -/
def recordValue (record : TextRecord) : JsonValue := .obj (record.map fun field => (field.1, .str field.2))

/-- A character that percent encoding leaves as it is, or writes another with. -/
def isUnreserved (c : Char) : Bool := c.isAlphanum || decide (c ∈ "%+-_.!~*'()".toList)

/-- A text that is encoded and decoded back. -/
structure Coded (coding : PercentCoding) (s : String) : Prop where
  round : coding.safeDecode (coding.encode s) = s
  unreserved : ∀ c ∈ (coding.encode s).toList, isUnreserved c = true

/-- `application/x-www-form-urlencoded`. -/
def formEncode (coding : PercentCoding) (record : TextRecord) : String :=
  "&".intercalate (record.map fun field => coding.encode field.1 ++ "=" ++ coding.encode field.2)

section Encoded

variable {toLowerCase : String → String} {coding : PercentCoding} {codec : JsonCodec} {name value : String}
  {record record' : TextRecord}

theorem isSpace_alphanum {c : Char} (letter : c.isAlphanum = true) : isSpace c = false := by
  have range : 48 ≤ c.toNat ∧ c.toNat ≤ 122 := by
    simp only [Char.isAlphanum, Char.isAlpha, Char.isUpper, Char.isLower, Char.isDigit,
      Bool.or_eq_true, Bool.and_eq_true, decide_eq_true_eq, ge_iff_le, UInt32.le_iff_toNat_le] at letter
    simp at letter
    omega
  simp [isSpace]
  omega

theorem not_isSpace {c : Char} (unreserved : isUnreserved c = true ∨ c = '=' ∨ c = '&') :
    isSpace c = false ∧ c ≠ '{' ∧ c ≠ '[' := by
  rcases unreserved with unreserved | rfl | rfl
  · rw [isUnreserved, Bool.or_eq_true, decide_eq_true_eq] at unreserved
    rcases unreserved with letter | mark
    · refine ⟨?_, ?_, ?_⟩
      · exact isSpace_alphanum letter
      · rintro rfl
        exact absurd letter (by decide)
      · rintro rfl
        exact absurd letter (by decide)
    · simp at mark
      rcases mark with rfl | rfl | rfl | rfl | rfl | rfl | rfl | rfl | rfl | rfl | rfl <;> decide
  · decide
  · decide

theorem Coded.free (coded : Coded coding value) {c : Char} (reserved : isUnreserved c = false) :
    c ∉ (coding.encode value).toList := by
  intro member
  rw [coded.unreserved c member] at reserved
  cases reserved

theorem safeDecode_placeholder : coding.safeDecode REDACTED = REDACTED := by
  have shape : String.ofList (REDACTED.toList.map fun c => if c = '+' then ' ' else c) = REDACTED := by decide
  rw [PercentCoding.safeDecode, shape, coding.placeholder, Option.getD_some]

/-- The names and values of a record are encoded and decoded back. -/
def RecordCoded (coding : PercentCoding) (record : TextRecord) : Prop :=
  ∀ field ∈ record, Coded coding field.1 ∧ Coded coding field.2

/-- The value of a field as the form branch puts it. -/
def formValue (toLowerCase : String → String) (coding : PercentCoding) (field : String × String) : String :=
  if isSensitiveName toLowerCase field.1 || looksSensitive field.2 then REDACTED else coding.encode field.2

theorem redactPair_encoded (named : Coded coding name) (coded : Coded coding value) :
    redactPair toLowerCase coding (coding.encode name ++ "=" ++ coding.encode value) =
      coding.encode name ++ "=" ++ formValue toLowerCase coding (name, value) := by
  rw [redactPair, pairParts_joined (named.free (by decide)), formValue]
  simp only [hidesPair, named.round, coded.round]
  split <;> rfl

theorem split_formEncode (coded : RecordCoded coding record) (some : record ≠ []) :
    Segments.split '&' (formEncode coding record) =
      record.map fun field => coding.encode field.1 ++ "=" ++ coding.encode field.2 := by
  refine Segments.split_intercalate ?_ (by simpa using some)
  intro piece member
  obtain ⟨field, among, rfl⟩ := List.mem_map.mp member
  obtain ⟨named, valued⟩ := coded field among
  have left := named.free (by decide : isUnreserved '&' = false)
  have right := valued.free (by decide : isUnreserved '&' = false)
  simp [Segments.Plain, left, right]

/-- No form is JSON, and none looks sensitive as a whole. -/
theorem redactString_formEncode (coded : RecordCoded coding record) (some : record ≠ []) :
    redactString toLowerCase coding codec (formEncode coding record) =
      redactFormEncoded toLowerCase coding (formEncode coding record) := by
  have chars : ∀ c ∈ (formEncode coding record).toList, isSpace c = false ∧ c ≠ '{' ∧ c ≠ '[' := by
    intro c member
    refine not_isSpace ?_
    rcases Segments.mem_of_mem_intercalate member with between | ⟨piece, among, within⟩
    · right; right
      simpa using between
    · obtain ⟨field, here, rfl⟩ := List.mem_map.mp among
      obtain ⟨named, valued⟩ := coded field here
      rw [String.toList_append, String.toList_append, List.mem_append, List.mem_append] at within
      rcases within with (left | mark) | right
      · exact .inl (named.unreserved c left)
      · right; left
        simpa using mark
      · exact .inl (valued.unreserved c right)
  have mark : '=' ∈ (formEncode coding record).toList := by
    obtain ⟨field, rest, rfl⟩ := List.exists_cons_of_ne_nil some
    have first : coding.encode field.1 ++ "=" ++ coding.encode field.2 ∈
        Segments.split '&' (formEncode coding (field :: rest)) := by
      rw [split_formEncode coded (List.cons_ne_nil _ _)]
      exact List.mem_cons_self
    exact Segments.mem_of_mem_split first (by simp)
  have free : ∀ c ∈ (formEncode coding record).toList, isSpace c = false := fun c member => (chars c member).1
  refine redactString_form (looksSensitive_form free mark) ?_
  rw [JsonCodec.jsonText, trimmed_eq_self free]
  refine if_neg ?_
  rintro (opens | opens)
  · exact (chars '{' (List.mem_of_mem_head? opens)).2.1 rfl
  · exact (chars '[' (List.mem_of_mem_head? opens)).2.2 rfl

/-- What the form branch makes of a record. -/
theorem redactString_record (coded : RecordCoded coding record) (some : record ≠ []) :
    redactString toLowerCase coding codec (formEncode coding record) =
      "&".intercalate (record.map fun field =>
        coding.encode field.1 ++ "=" ++ formValue toLowerCase coding field) := by
  rw [redactString_formEncode coded some, redactFormEncoded_eq, split_formEncode coded some, List.map_map]
  refine congrArg _ (List.map_congr_left fun field member => ?_)
  exact redactPair_encoded (coded field member).1 (coded field member).2

theorem formPairs_record (coded : RecordCoded coding record) (some : record ≠ []) :
    formPairs (redactString toLowerCase coding codec (formEncode coding record)) =
      record.map fun field => Option.some (coding.encode field.1, formValue toLowerCase coding field) := by
  rw [redactString_formEncode coded some, formPairs_redactFormEncoded, formPairs,
    split_formEncode coded some, List.map_map, List.map_map]
  refine List.map_congr_left fun field member => ?_
  obtain ⟨named, valued⟩ := coded field member
  simp only [Function.comp_apply, pairParts_joined (named.free (by decide)), Option.map_some, formValue, hidesPair,
    named.round, valued.round]

end Encoded

section Alike

variable (codec : JsonCodec) (toLowerCase : String → String) (coding : PercentCoding)

/-- Two pairs of a form: one pair, or two of one name whose values are both hidden. -/
def PairsAlike (pair pair' : String) : Prop :=
  pair = pair' ∨ ∃ name raw raw', pairParts pair = some (name, raw) ∧ pairParts pair' = some (name, raw') ∧
    hidesPair toLowerCase coding name raw = true ∧ hidesPair toLowerCase coding name raw' = true

mutual

/-- Values that differ in what the object branch hides, and only there. -/
inductive ShownAlike : JsonValue → JsonValue → Prop where
  | same (value : JsonValue) : ShownAlike value value
  | looks {s s' : String} (sensitive : looksSensitive s = true) (sensitive' : looksSensitive s' = true) :
      ShownAlike (.str s) (.str s')
  | text {s s' : String} {value value' : JsonValue} (read : codec.jsonText s = some value)
      (read' : codec.jsonText s' = some value')
      (below : ShownAlike value value') : ShownAlike (.str s) (.str s')
  | form {s s' : String} (calm : looksSensitive s = false) (calm' : looksSensitive s' = false)
      (unread : codec.jsonText s = none) (unread' : codec.jsonText s' = none)
      (pairs : List.Forall₂ (PairsAlike toLowerCase coding) (Segments.split '&' s) (Segments.split '&' s')) :
      ShownAlike (.str s) (.str s')
  | items {items items' : List JsonValue} (each : ShownAlikeItems items items') :
      ShownAlike (.arr items) (.arr items')
  | fields {fields fields' : List (String × JsonValue)} (each : ShownAlikeFields fields fields') :
      ShownAlike (.obj fields) (.obj fields')

inductive ShownAlikeItems : List JsonValue → List JsonValue → Prop where
  | nil : ShownAlikeItems [] []
  | cons {item item' : JsonValue} {rest rest' : List JsonValue} (here : ShownAlike item item')
      (later : ShownAlikeItems rest rest') :
      ShownAlikeItems (item :: rest) (item' :: rest')

inductive ShownAlikeFields : List (String × JsonValue) → List (String × JsonValue) → Prop where
  | nil : ShownAlikeFields [] []
  | hidden {name : String} {value value' : JsonValue} {rest rest' : List (String × JsonValue)}
      (sensitive : isSensitiveName toLowerCase name = true ∨ name = "__proto__")
      (later : ShownAlikeFields rest rest') :
      ShownAlikeFields ((name, value) :: rest) ((name, value') :: rest')
  | cons {name : String} {value value' : JsonValue} {rest rest' : List (String × JsonValue)}
      (here : ShownAlike value value')
      (later : ShownAlikeFields rest rest') : ShownAlikeFields ((name, value) :: rest) ((name, value') :: rest')

end

variable {codec toLowerCase coding} {value value' : JsonValue}

theorem redactPair_alike {pair pair' : String} (alike : PairsAlike toLowerCase coding pair pair') :
    redactPair toLowerCase coding pair = redactPair toLowerCase coding pair' := by
  rcases alike with rfl | ⟨name, raw, raw', parts, parts', hides, hides'⟩
  · rfl
  · simp only [redactPair, parts, parts', hides, hides', if_true]

mutual

/-- The object branch does not tell them apart. -/
theorem redactValue_alike : ∀ {value value' : JsonValue}, ShownAlike codec toLowerCase coding value value' →
    redactValue toLowerCase coding codec value = redactValue toLowerCase coding codec value'
  | _, _, .same _ => rfl
  | _, _, .looks sensitive sensitive' => by
    rw [redactValue_str, redactValue_str, redactString_looks sensitive, redactString_looks sensitive']
  | _, _, .text read read' below => by
    have same := redactValue_alike below
    rw [redactValue_str, redactValue_str, redactString_json read, redactString_json read', same]
  | _, _, .form calm calm' unread unread' pairs => by
    rw [redactValue_str, redactValue_str, redactString_form calm unread, redactString_form calm' unread',
      redactFormEncoded_eq, redactFormEncoded_eq]
    have same := List.forall₂_map_left_iff.mpr
      (List.forall₂_map_right_iff.mpr (pairs.imp fun _ _ alike => redactPair_alike alike))
    rw [List.forall₂_eq_eq_eq] at same
    rw [same]
  | _, _, .items each => by
    have same := redactItems_alike each
    rw [redactValue, redactValue, same]
  | _, _, .fields each => by
    have same := redactFields_alike each
    rw [redactValue, redactValue, same]

theorem redactItems_alike : ∀ {items items' : List JsonValue},
    ShownAlikeItems codec toLowerCase coding items items' →
    redactItems toLowerCase coding codec items = redactItems toLowerCase coding codec items'
  | _, _, .nil => rfl
  | _, _, .cons here later => by
    have same := redactValue_alike here
    have rest := redactItems_alike later
    rw [redactItems, redactItems, same, rest]

theorem redactFields_alike : ∀ {fields fields' : List (String × JsonValue)},
    ShownAlikeFields codec toLowerCase coding fields fields' →
      redactFields toLowerCase coding codec fields = redactFields toLowerCase coding codec fields'
  | _, _, .nil => rfl
  | _, _, .hidden sensitive later => by
    have rest := redactFields_alike later
    rw [redactFields, redactFields, rest]
    rcases sensitive with sensitive | proto
    · simp only [sensitive, if_true]
    · simp only [proto, if_true]
  | _, _, .cons here later => by
    have same := redactValue_alike here
    have rest := redactFields_alike later
    rw [redactFields, redactFields, same, rest]

end

/-- Two records alike have the same names, and alike values where a name is not sensitive. -/
theorem alike_record : ∀ {record record' : TextRecord},
    ShownAlike codec toLowerCase coding (recordValue record) (recordValue record') →
      List.Forall₂ (fun field field' : String × String => field.1 = field'.1) record record' := by
  have fields : ∀ {record record' : TextRecord},
      ShownAlikeFields codec toLowerCase coding (record.map fun field => (field.1, .str field.2))
          (record'.map fun field => (field.1, .str field.2)) →
        List.Forall₂ (fun field field' : String × String => field.1 = field'.1) record record' := by
    intro record
    induction record with
    | nil =>
      intro record' alike
      cases record' with
      | nil => exact .nil
      | cons => cases alike
    | cons field rest ih =>
      intro record' alike
      cases record' with
      | nil => cases alike
      | cons field' rest' =>
        obtain ⟨name, value⟩ := field
        obtain ⟨name', value'⟩ := field'
        cases alike with
        | hidden _ later => exact .cons rfl (ih later)
        | cons _ later => exact .cons rfl (ih later)
  intro record record' alike
  rw [recordValue, recordValue] at alike
  generalize shape : JsonValue.obj (record.map fun field => (field.1, JsonValue.str field.2)) = one at alike
  generalize shape' : JsonValue.obj (record'.map fun field => (field.1, JsonValue.str field.2)) = other at alike
  cases alike with
  | same =>
    have same : record = record' := by
      have both := shape.trans shape'.symm
      rw [JsonValue.obj.injEq] at both
      refine List.map_injective_iff.mpr (fun field field' equal => ?_) both
      simpa [Prod.ext_iff] using equal
    rw [same]
    exact List.forall₂_same.mpr fun _ _ => rfl
  | fields each =>
    cases shape
    cases shape'
    exact fields each
  | _ => cases shape

end Alike

section Serialised

variable (codec : JsonCodec) (toLowerCase : String → String) (coding : PercentCoding)

/-- A leaf stands in the value the output of the form branch gives its `i`-th pair. -/
def FormShows (output : String) (i : ℕ) (place : List Step) (x : JsonValue) : Prop :=
  ∃ name raw, (formPairs output)[i]? = some (some (name, raw)) ∧ Stands codec (.str (coding.safeDecode raw)) place x

/-- What is hidden of a record is hidden of it written as a form. -/
def FormHides (record : TextRecord) : Prop :=
  ∀ i name value, record[i]? = some (name, value) → ∀ place x,
    Hides codec toLowerCase coding (recordValue record) (.field name :: place) x →
      ¬ FormShows codec coding (redactString toLowerCase coding codec (formEncode coding record)) i place x

/-- A leaf stands in what is made of a value's JSON text: a pair of a text where the pair stands as it
did, anything else where what is made is read as JSON. -/
def JsonShows (value : JsonValue) : List Step → JsonValue → Prop
  | [.pair i], _ => ∃ name raw, (formPairs (codec.stringify value))[i]? = some (some (name, raw)) ∧ raw ≠ REDACTED ∧
      (formPairs (redactString toLowerCase coding codec (codec.stringify value)))[i]? = some (some (name, raw))
  | place, x => ∃ parsed,
      codec.parse (redactString toLowerCase coding codec (codec.stringify value)) = some parsed ∧
      Stands codec parsed place x

/-- What is hidden of a value is hidden of its JSON text. -/
def JsonHides (value : JsonValue) : Prop :=
  ∀ place x, Hides codec toLowerCase coding value place x → ¬ JsonShows codec toLowerCase coding value place x

/-- The place is a pair of the text, taken for a form, whose value is hidden or stands for a hidden one. -/
def PairHidden (text : String) (place : List Step) : Prop :=
  ∃ i, place = [.pair i] ∧ ∀ name raw, (formPairs text)[i]? = some (some (name, raw)) →
    raw = REDACTED ∨ hidesPair toLowerCase coding name raw = true

/-- The text, taken for a form, has no pair to hide. -/
def Untouched (text : String) : Prop :=
  ∀ name raw, some (name, raw) ∈ formPairs text → hidesPair toLowerCase coding name raw = false

variable {codec toLowerCase coding} {record record' : TextRecord} {value value' : JsonValue} {s s' : String}

theorem redactString_container (container : value.isContainer = true) (trips : RoundTrips codec value) :
    redactString toLowerCase coding codec (codec.stringify value) =
      codec.stringify (redactValue toLowerCase coding codec value) :=
  redactString_json (jsonText_stringify container trips)

/-- A container's JSON text is redacted as the container is. -/
theorem jsonHides_container (container : value.isContainer = true) (trips : RoundTrips codec value)
    (again : RoundTrips codec (redactValue toLowerCase coding codec value)) :
    JsonHides codec toLowerCase coding value := by
  rintro place x ⟨leaf, -, hidden⟩ shows
  have read : ∃ parsed, codec.parse (redactString toLowerCase coding codec (codec.stringify value)) = some parsed ∧
      Stands codec parsed place x := by
    cases leaf with
    | field => exact shows
    | item => exact shows
    | scalar =>
      rename_i scalar
      cases value with
      | arr | obj => cases scalar
      | _ => cases container
    | _ => cases container
  obtain ⟨parsed, read, below⟩ := read
  rw [redactString_container container trips, show codec.parse _ = some _ from again] at read
  cases read
  exact hidden below

theorem jsonHides_scalar (scalar : value.isScalar = true) : JsonHides codec toLowerCase coding value := by
  rintro place x ⟨leaf, -, hidden⟩ -
  rw [redactValue_scalar scalar] at hidden
  cases leaf with
  | scalar => exact absurd (.scalar scalar) hidden
  | _ => cases scalar

/-- A quoted text is only taken for a form. -/
theorem redactString_quoted : redactString toLowerCase coding codec (codec.stringify (.str s)) =
    redactFormEncoded toLowerCase coding (codec.stringify (.str s)) := by
  have opens := head?_trimmed (codec.quoted s).1 (by decide)
  refine redactString_form (looksSensitive_opening opens (.inr (.inr rfl))) ?_
  simp only [JsonCodec.jsonText, opens]
  exact if_neg (by decide)

theorem Leaf.stands {t x : JsonValue} {place : List Step} (leaf : Leaf codec t place x) :
    Stands codec t place x := by
  induction leaf with
  | scalar scalar => exact .scalar scalar
  | plain => exact .plain _
  | field found _ ih => exact .field found ih
  | item found _ ih => exact .item found ih
  | text read _ ih => exact .text read ih
  | pair _ found => exact .pair found

/-- A text's JSON text hides what the text's own redaction does where that lies in pairs it hides as a
form, and, unless the text holds JSON and the form hides some of it, only there. -/
theorem jsonHides_text (trips : RoundTrips codec (.str s))
    (written : TextsRoundTrip codec toLowerCase coding (.str s)) :
    ((∀ place x, Leaf codec (.str s) place x → x ≠ .str REDACTED → Concealed codec toLowerCase coding (.str s) place →
        PairHidden toLowerCase coding (codec.stringify (.str s)) place) →
          JsonHides codec toLowerCase coding (.str s)) ∧
      (codec.jsonText s = none ∨ Untouched toLowerCase coding (codec.stringify (.str s)) →
        JsonHides codec toLowerCase coding (.str s) →
          ∀ place x, Leaf codec (.str s) place x → x ≠ .str REDACTED →
            Concealed codec toLowerCase coding (.str s) place →
            PairHidden toLowerCase coding (codec.stringify (.str s)) place) := by
  constructor
  · rintro fine place x ⟨leaf, secret, hidden⟩ shows
    have concealed := not_not.mp ((stands_redactValue leaf secret written).not.mp hidden)
    obtain ⟨i, rfl, masked⟩ := fine place x leaf secret concealed
    obtain ⟨name, raw, found, open_, stands⟩ := shows
    rw [redactString_quoted, getElem?_formPairs_redact found] at stands
    simp only [Option.some.injEq, Prod.mk.injEq, true_and] at stands
    rcases masked name raw found with same | hides
    · exact open_ same
    · rw [if_pos hides] at stands
      exact open_ stands.symm
  · intro legible hides place x leaf secret concealed
    have hidden := (stands_redactValue leaf secret written).not.mpr (not_not.mpr concealed)
    have shut := hides place x ⟨leaf, secret, hidden⟩
    cases leaf with
    | scalar scalar => cases scalar
    | plain unread pairless =>
      refine absurd ⟨.str s, ?_, .plain s⟩ shut
      rw [redactString_quoted, redactFormEncoded, if_pos fun within => pairless ((codec.quoted s).2 within)]
      exact trips
    | text read below =>
      rcases legible with unread | untouched
      · rw [unread] at read
        cases read
      · refine absurd ⟨.str s, ?_, .text read below.stands⟩ shut
        rw [redactString_quoted, redactFormEncoded_untouched untouched]
        exact trips
    | @pair _ _ _ i unread found =>
      refine ⟨i, rfl, fun name raw there => ?_⟩
      by_contra open_
      rw [not_or] at open_
      refine shut ⟨name, raw, there, open_.1, ?_⟩
      rw [redactString_quoted, getElem?_formPairs_redact there, if_neg open_.2]

/-- Containers that differ in what the object branch hides are one JSON text when redacted. -/
theorem json_alike (textless : ∀ s, value ≠ .str s) (trips : RoundTrips codec value)
    (trips' : RoundTrips codec value') (alike : ShownAlike codec toLowerCase coding value value') :
    redactString toLowerCase coding codec (codec.stringify value) =
      redactString toLowerCase coding codec (codec.stringify value') := by
  have same := redactValue_alike alike
  cases alike with
  | same => rfl
  | looks | text | form => exact absurd rfl (textless _)
  | items | fields => rw [redactString_container rfl trips, redactString_container rfl trips', same]

/-- Two texts are one JSON text when redacted just where their JSON texts, taken for forms, differ in hidden values. -/
theorem quoted_alike_iff :
    redactString toLowerCase coding codec (codec.stringify (.str s)) =
      redactString toLowerCase coding codec (codec.stringify (.str s')) ↔
      List.Forall₂ (PairsMasked toLowerCase coding) (Segments.split '&' (codec.stringify (.str s)))
        (Segments.split '&' (codec.stringify (.str s'))) := by
  rw [redactString_quoted, redactString_quoted, redactFormEncoded_eq_iff]

theorem lookup_record (nodup : (record.map Prod.fst).Nodup) {i : ℕ} {name value : String}
    (found : record[i]? = some (name, value)) :
    (record.map fun field => (field.1, JsonValue.str field.2)).lookup name = some (.str value) := by
  induction record generalizing i with
  | nil => cases found
  | cons field rest ih =>
    obtain ⟨key, held⟩ := field
    rw [List.map_cons, List.nodup_cons] at nodup
    rw [List.map_cons, List.lookup_cons]
    cases i with
    | zero =>
      cases found
      simp
    | succ i =>
      rw [List.getElem?_cons_succ] at found
      have other : name ≠ key := by
        rintro rfl
        exact nodup.1 (List.mem_map.mpr ⟨(name, value), List.mem_of_getElem? found, rfl⟩)
      have apart : (name == key) = false := by simpa using other
      simp only [apart]
      exact ih nodup.2 found

/-- A form shows a field whose name and value do not look sensitive as it is. -/
theorem formShows_iff (coded : RecordCoded coding record) {i : ℕ} {name value : String}
    (found : record[i]? = some (name, value)) {place : List Step} {x : JsonValue} :
    FormShows codec coding (redactString toLowerCase coding codec (formEncode coding record)) i place x ↔
      Stands codec (.str (if isSensitiveName toLowerCase name || looksSensitive value then REDACTED else value)) place x := by
  have member : (name, value) ∈ record := List.mem_of_getElem? found
  have pairs : formPairs (redactString toLowerCase coding codec (formEncode coding record)) = _ :=
    formPairs_record coded (List.ne_nil_of_mem member)
  have decoded : coding.safeDecode (formValue toLowerCase coding (name, value)) =
      if isSensitiveName toLowerCase name || looksSensitive value then REDACTED else value := by
    rw [formValue]
    split
    · exact safeDecode_placeholder
    · exact (coded _ member).2.round
  rw [FormShows, pairs, List.getElem?_map, found, ← decoded]
  simp only [Option.map_some, Option.some.injEq, Prod.mk.injEq]
  exact ⟨fun ⟨_, _, ⟨_, same⟩, shows⟩ => same ▸ shows, fun shows => ⟨_, _, ⟨rfl, rfl⟩, shows⟩⟩

/-- A record is hidden as a form exactly where each field is hidden whole or has
nothing within its text that is to be hidden. -/
theorem formHides_iff (nodup : (record.map Prod.fst).Nodup) (coded : RecordCoded coding record)
    (written : TextsRoundTrip codec toLowerCase coding (recordValue record)) :
    FormHides codec toLowerCase coding record ↔
      ∀ field ∈ record, isSensitiveName toLowerCase field.1 = true ∨ looksSensitive field.2 = true ∨
        ∀ place x, Leaf codec (.str field.2) place x → x ≠ .str REDACTED →
          ¬ Concealed codec toLowerCase coding (recordValue record) (.field field.1 :: place) := by
  constructor
  · intro hides field member
    obtain ⟨i, found⟩ := List.getElem?_of_mem member
    by_cases whole : (isSensitiveName toLowerCase field.1 || looksSensitive field.2) = true
    · exact (Bool.or_eq_true _ _ ▸ whole).imp_right .inl
    · refine .inr (.inr fun place x leaf secret concealed => ?_)
      have deep : Leaf codec (recordValue record) (.field field.1 :: place) x :=
        .field (lookup_record nodup found) leaf
      have hidden := (stands_redactValue deep secret written).not.mpr (not_not.mpr concealed)
      refine hides i field.1 field.2 found place x ⟨deep, secret, hidden⟩ ((formShows_iff coded found).mpr ?_)
      rw [if_neg whole]
      exact leaf.stands
  · rintro fine i name value found place x ⟨leaf, secret, hidden⟩ shows
    rw [formShows_iff coded found] at shows
    by_cases whole : (isSensitiveName toLowerCase name || looksSensitive value) = true
    · rw [if_pos whole] at shows
      exact secret (stands_placeholder shows)
    · cases leaf with
      | field found' below =>
        rw [lookup_record nodup found] at found'
        cases found'
        have concealed := not_not.mp ((stands_redactValue (.field (lookup_record nodup found) below) secret written).not.mp hidden)
        rcases fine _ (List.mem_of_getElem? found) with sensitive | looks | open_
        · exact whole (by simp [sensitive])
        · exact whole (by simp [looks])
        · exact open_ place x below secret concealed

theorem Coded.inj {s s' : String} (coded : Coded coding s) (coded' : Coded coding s')
    (same : coding.encode s = coding.encode s') : s = s' := by
  rw [← coded.round, same, coded'.round]

theorem formValue_inj {name value value' : String} (coded : Coded coding value) (coded' : Coded coding value') :
    formValue toLowerCase coding (name, value) = formValue toLowerCase coding (name, value') ↔
      value = value' ∨ isSensitiveName toLowerCase name = true ∨ looksSensitive value = true ∧
        looksSensitive value' = true := by
  have bracket : ∀ {s}, Coded coding s → coding.encode s ≠ REDACTED := by
    intro s coded same
    have free : '[' ∉ (coding.encode s).toList := coded.free (by decide)
    rw [same] at free
    exact free (by decide)
  rw [formValue, formValue]
  by_cases sensitive : isSensitiveName toLowerCase name = true
  · simp [sensitive]
  · by_cases looks : looksSensitive value = true
    · by_cases looks' : looksSensitive value' = true
      · simp [looks, looks']
      · simp only [sensitive, looks, looks', Bool.or_true, Bool.or_false, if_true,
          Bool.false_eq_true, if_false, and_false, or_false]
        refine ⟨fun same => absurd same.symm (bracket coded'), fun same => ?_⟩
        rw [same] at looks
        exact absurd looks looks'
    · by_cases looks' : looksSensitive value' = true
      · simp only [sensitive, looks, looks', Bool.or_true, Bool.or_false, if_true,
          Bool.false_eq_true, if_false, false_and, or_false]
        refine ⟨fun same => absurd same (bracket coded), fun same => ?_⟩
        rw [← same] at looks'
        exact absurd looks' looks
      · simp only [sensitive, looks, looks', Bool.or_self, Bool.false_eq_true, if_false, false_and, or_false]
        exact ⟨coded.inj coded', congrArg coding.encode⟩

/-- Two records alike are one form exactly where the fields they differ in are hidden whole. -/
theorem forms_alike_iff (coded : RecordCoded coding record) (coded' : RecordCoded coding record')
    (names : List.Forall₂ (fun field field' : String × String => field.1 = field'.1) record record') :
    redactString toLowerCase coding codec (formEncode coding record) =
        redactString toLowerCase coding codec (formEncode coding record') ↔
      List.Forall₂ (fun field field' : String × String => field.2 = field'.2 ∨
        isSensitiveName toLowerCase field.1 = true ∨
        looksSensitive field.2 = true ∧ looksSensitive field'.2 = true) record record' := by
  have pointwise : (record.map fun field => some (coding.encode field.1, formValue toLowerCase coding field)) =
        (record'.map fun field => some (coding.encode field.1, formValue toLowerCase coding field)) ↔
      List.Forall₂ (fun field field' : String × String => field.2 = field'.2 ∨
        isSensitiveName toLowerCase field.1 = true ∨
        looksSensitive field.2 = true ∧ looksSensitive field'.2 = true) record record' := by
    induction names with
    | nil => simp
    | @cons field field' rest rest' name _ ih =>
      obtain ⟨key, value⟩ := field
      obtain ⟨key', value'⟩ := field'
      cases (name : key = key')
      have here : formValue toLowerCase coding (key, value) = formValue toLowerCase coding (key, value') ↔ _ :=
        formValue_inj (coded _ List.mem_cons_self).2 (coded' _ List.mem_cons_self).2
      have later := ih (fun field member => coded field (List.mem_cons_of_mem _ member))
        (fun field member => coded' field (List.mem_cons_of_mem _ member))
      simp only [List.map_cons, List.cons.injEq, Option.some.injEq, Prod.mk.injEq, true_and,
        List.forall₂_cons, later, here]
  cases record with
  | nil =>
    cases names
    simp
  | cons field rest =>
    cases names with
    | cons name later =>
      rename_i field' rest'
      rw [← pointwise]
      constructor
      · intro same
        have pairs := congrArg formPairs same
        rwa [formPairs_record coded (List.cons_ne_nil _ _), formPairs_record coded' (List.cons_ne_nil _ _)] at pairs
      · intro same
        rw [redactString_record coded (List.cons_ne_nil _ _), redactString_record coded' (List.cons_ne_nil _ _)]
        refine congrArg _ ?_
        have joined := congrArg (List.map fun pair : Option (String × String) => pair.elim "" fun parts =>
          parts.1 ++ "=" ++ parts.2) same
        rwa [List.map_map, List.map_map] at joined

/-- A body written as JSON is redacted as the object is, unless it is a text with something to hide that
its JSON text, taken for a form, shows. A record written as a form is where no field that is shown has
within its text what the object branch hides. -/
theorem serialised_redaction (codec : JsonCodec) (toLowerCase : String → String) (coding : PercentCoding) :
    (∀ t, (∀ s, t ≠ .str s) → RoundTrips codec t → RoundTrips codec (redactValue toLowerCase coding codec t) →
        JsonHides codec toLowerCase coding t) ∧
      (∀ s, RoundTrips codec (.str s) → TextsRoundTrip codec toLowerCase coding (.str s) →
        ((∀ place x, Leaf codec (.str s) place x → x ≠ .str REDACTED → Concealed codec toLowerCase coding (.str s) place →
            PairHidden toLowerCase coding (codec.stringify (.str s)) place) →
              JsonHides codec toLowerCase coding (.str s)) ∧
          (codec.jsonText s = none ∨ Untouched toLowerCase coding (codec.stringify (.str s)) →
            JsonHides codec toLowerCase coding (.str s) →
              ∀ place x, Leaf codec (.str s) place x → x ≠ .str REDACTED →
                Concealed codec toLowerCase coding (.str s) place →
                PairHidden toLowerCase coding (codec.stringify (.str s)) place)) ∧
      (∀ t t', (∀ s, t ≠ .str s) → RoundTrips codec t → RoundTrips codec t' →
        ShownAlike codec toLowerCase coding t t' →
        redactString toLowerCase coding codec (codec.stringify t) =
          redactString toLowerCase coding codec (codec.stringify t')) ∧
      (∀ s s', ShownAlike codec toLowerCase coding (.str s) (.str s') →
        (redactString toLowerCase coding codec (codec.stringify (.str s)) =
            redactString toLowerCase coding codec (codec.stringify (.str s')) ↔
          List.Forall₂ (PairsMasked toLowerCase coding) (Segments.split '&' (codec.stringify (.str s)))
            (Segments.split '&' (codec.stringify (.str s'))))) ∧
      (∀ record : TextRecord, (record.map Prod.fst).Nodup → RecordCoded coding record →
        TextsRoundTrip codec toLowerCase coding (recordValue record) →
          (FormHides codec toLowerCase coding record ↔
            ∀ field ∈ record, isSensitiveName toLowerCase field.1 = true ∨ looksSensitive field.2 = true ∨
              ∀ place x, Leaf codec (.str field.2) place x → x ≠ .str REDACTED →
                ¬ Concealed codec toLowerCase coding (recordValue record) (.field field.1 :: place))) ∧
      ∀ record record' : TextRecord, RecordCoded coding record → RecordCoded coding record' →
        ShownAlike codec toLowerCase coding (recordValue record) (recordValue record') →
          (redactString toLowerCase coding codec (formEncode coding record) =
              redactString toLowerCase coding codec (formEncode coding record') ↔
            List.Forall₂ (fun field field' : String × String => field.2 = field'.2 ∨
              isSensitiveName toLowerCase field.1 = true ∨ looksSensitive field.2 = true ∧
                looksSensitive field'.2 = true)
              record record') := by
  refine ⟨fun t textless trips again => ?_, fun s trips written => jsonHides_text trips written,
    fun t t' textless trips trips' alike => json_alike textless trips trips' alike, fun s s' _ => quoted_alike_iff,
    fun record nodup coded written => formHides_iff nodup coded written,
    fun record record' coded coded' alike => forms_alike_iff coded coded' (alike_record alike)⟩
  cases t with
  | str s => exact absurd rfl (textless s)
  | arr | obj => exact jsonHides_container rfl trips again
  | _ => exact jsonHides_scalar rfl

end Serialised

/-- A JSON text with a password in it, the text it is redacted to, and a credential as JSON. -/
def noteText : String := "\x7b\"password\":\"hunter2\"\x7d"

def noteRedacted : String := "\x7b\"password\":\"[REDACTED]\"\x7d"

def bearerText : String := "\"Bearer abcdefgh\""

def noteCodec : JsonCodec where
  parse text :=
    if text = noteText then some (.obj [("password", .str "hunter2")])
    else if text = noteRedacted then some (.obj [("password", .str REDACTED)])
    else if text = bearerText then some (.str "Bearer abcdefgh")
    else none
  stringify
    | .obj [("password", .str s)] => "\x7b\"password\":\"" ++ s ++ "\"\x7d"
    | .obj _ => "\x7b\x7d"
    | .arr _ => "[]"
    | .str s => "\"" ++ s ++ "\""
    | _ => "null"
  short text value parsed := by
    split_ifs at parsed with note redacted bearer
    · cases parsed
      rw [note]
      decide
    · cases parsed
      rw [redacted]
      decide
    · cases parsed
      rw [bearer]
      decide
  placeholder := by decide
  bracketed value container := by
    cases value with
    | obj fields =>
      split
      · rename_i s _
        refine ⟨.inl (by simp), fun c last => ?_⟩
        have ends : ("\x7b\"password\":\"" ++ s ++ "\"\x7d").toList.getLast? = some '}' := by
          rw [String.toList_append, List.getLast?_append]
          rfl
        rw [Option.mem_def, ends] at last
        cases last
        decide
      · simp [isSpace]
      · rename_i same
        cases same
      · rename_i same
        cases same
      · rename_i other _ _
        exact (other _ rfl).elim
    | arr items => simp [isSpace]
    | _ => cases container
  quoted s := by simp

def noteCoding : PercentCoding where
  encode s := if s = noteText then "%7B%22password%22%3A%22hunter2%22%7D" else s
  decode s := if s = "%7B%22password%22%3A%22hunter2%22%7D" then some noteText else some s
  placeholder := by decide

theorem noteText_read : noteCodec.jsonText noteText = some (.obj [("password", .str "hunter2")]) := by rfl

theorem noteText_redacted :
    RoundTrips noteCodec (redactValue id noteCoding noteCodec (.obj [("password", .str "hunter2")])) := by
  have redacted : redactValue id noteCoding noteCodec (.obj [("password", .str "hunter2")]) =
      .obj [("password", .str REDACTED)] := by
    rw [redactValue, redactFields, redactFields, if_neg (by decide), if_pos (by decide)]
  rw [redacted]
  rfl

theorem note_coded : RecordCoded noteCoding [("note", noteText)] := by
  intro field member
  rw [List.mem_singleton.mp member]
  refine ⟨⟨?_, ?_⟩, ⟨?_, ?_⟩⟩
  · decide
  · exact List.all_eq_true.mp (by decide +kernel)
  · decide
  · exact List.all_eq_true.mp (by decide +kernel)

theorem lookup_single {name asked : String} {value found : JsonValue}
    (looked : [(name, value)].lookup asked = some found) : found = value := by
  rw [List.lookup_cons] at looked
  split at looked
  · exact (Option.some.inj looked).symm
  · cases looked

theorem note_written (name : String) : TextsRoundTrip noteCodec id noteCoding (recordValue [(name, noteText)]) := by
  have plain : noteCodec.jsonText "hunter2" = none := by rfl
  have password : ∀ parsed, ¬ Reads noteCodec (.obj [("password", .str "hunter2")]) parsed := by
    intro parsed reads
    cases reads with
    | field found below =>
      rw [lookup_single found] at below
      cases below with
      | here read =>
        rw [plain] at read
        cases read
      | text read =>
        rw [plain] at read
        cases read
  intro parsed reads
  rw [recordValue] at reads
  cases reads with
  | field found below =>
    rw [lookup_single found] at below
    cases below with
    | here read =>
      rw [noteText_read] at read
      cases read
      exact noteText_redacted
    | text read deeper =>
      rw [noteText_read] at read
      cases read
      exact absurd deeper (password _)

theorem password_read : RoundTrips noteCodec (.obj [("password", .str "hunter2")]) := rfl

/-- What a container holds under a telling name is hidden of its JSON text; and where the name of a field
tells, its value is hidden in either form. -/
theorem form_hides_secret :
    JsonHides noteCodec id noteCoding (.obj [("password", .str "hunter2")]) ∧
      FormHides noteCodec id noteCoding [("client_secret", noteText)] := by
  obtain ⟨containers, -, -, -, forms, -⟩ := serialised_redaction noteCodec id noteCoding
  constructor
  · exact containers _ (fun s => by rintro ⟨⟩) password_read noteText_redacted
  · refine (forms [("client_secret", noteText)] (by decide) ?_ (note_written "client_secret")).mpr ?_
    · intro field member
      rw [List.mem_singleton.mp member]
      exact ⟨⟨by decide, List.all_eq_true.mp (by decide +kernel)⟩, (note_coded _ List.mem_cons_self).2⟩
    · intro field member
      rw [List.mem_singleton.mp member]
      exact .inl (by decide)

theorem bearer_looks : looksSensitive "Bearer abcdefgh" = true := by decide +kernel

/-- A password in a JSON text is shown where the text is the value of a form's field, and a credential
where it is the whole of a JSON text. -/
theorem form_shows_password :
    ¬ FormHides noteCodec id noteCoding [("note", noteText)] ∧
      ¬ JsonHides noteCodec id noteCoding (.str "Bearer abcdefgh") := by
  constructor
  · rw [formHides_iff (by decide) note_coded (note_written _)]
    intro fine
    rcases fine ("note", noteText) List.mem_cons_self with sensitive | looks | hidden
    · exact absurd sensitive (by decide)
    · exact absurd looks (by decide)
    · have leaf : Leaf noteCodec (.str noteText) [.text, .field "password"] (.str "hunter2") :=
        .text noteText_read (.field rfl (.plain rfl (by decide)))
      have secret : JsonValue.str "hunter2" ≠ .str REDACTED := by
        rw [ne_eq, JsonValue.str.injEq]
        decide
      refine hidden [.text, .field "password"] (.str "hunter2") leaf secret ?_
      exact .field rfl (.text noteText_read (.name (.inl (by decide))))
  · intro hides
    have leaf : Leaf noteCodec (.str "Bearer abcdefgh") [] (.str "Bearer abcdefgh") := .plain rfl (by decide)
    have secret : JsonValue.str "Bearer abcdefgh" ≠ .str REDACTED := by
      rw [ne_eq, JsonValue.str.injEq]
      decide
    refine hides [] _ ⟨leaf, secret, fun stands => ?_⟩ ⟨.str "Bearer abcdefgh", ?_, .plain _⟩
    · rw [redactValue_str, redactString_looks bearer_looks] at stands
      exact secret (stands_placeholder stands)
    · rw [redactString_quoted, redactFormEncoded, if_pos (by decide)]
      rfl

end Dianemo
