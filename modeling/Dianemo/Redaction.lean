import Dianemo.Redact

namespace Dianemo

/-- A step down into a value: to a field, to an item, into the JSON a text holds,
or to a pair of the form a text holds. -/
inductive Step where
  | field (name : String)
  | item (i : ℕ)
  | text
  | pair (i : ℕ)

/-- The pairs of a form. -/
def formPairs (value : String) : List (Option (String × String)) := (Segments.split '&' value).map pairParts

section Reading

variable (codec : JsonCodec)

/-- A value that is no leaf and no text. -/
def JsonValue.isScalar : JsonValue → Bool
  | .null => true
  | .bool _ => true
  | .num _ => true
  | _ => false

/-- What a reader of a value finds in a place of it. -/
inductive Stands : JsonValue → List Step → JsonValue → Prop where
  | scalar {x : JsonValue} (scalar : x.isScalar = true) : Stands x [] x
  | plain (s : String) : Stands (.str s) [] (.str s)
  | field {fields : List (String × JsonValue)} {name : String} {value x : JsonValue} {place : List Step}
      (found : fields.lookup name = some value) (below : Stands value place x) :
      Stands (.obj fields) (.field name :: place) x
  | item {items : List JsonValue} {i : ℕ} {value x : JsonValue} {place : List Step}
      (found : items[i]? = some value) (below : Stands value place x) : Stands (.arr items) (.item i :: place) x
  | text {s : String} {parsed x : JsonValue} {place : List Step} (read : codec.jsonText s = some parsed)
      (below : Stands parsed place x) : Stands (.str s) (.text :: place) x
  | pair {s name raw : String} {i : ℕ} (found : (formPairs s)[i]? = some (some (name, raw))) :
      Stands (.str s) [.pair i] (.str raw)

/-- The leaves of a value, a text taken for JSON where it is JSON and else for a form where it has pairs. -/
inductive Leaf : JsonValue → List Step → JsonValue → Prop where
  | scalar {x : JsonValue} (scalar : x.isScalar = true) : Leaf x [] x
  | plain {s : String} (unread : codec.jsonText s = none) (pairless : '=' ∉ s.toList) : Leaf (.str s) [] (.str s)
  | field {fields : List (String × JsonValue)} {name : String} {value x : JsonValue} {place : List Step}
      (found : fields.lookup name = some value) (below : Leaf value place x) :
      Leaf (.obj fields) (.field name :: place) x
  | item {items : List JsonValue} {i : ℕ} {value x : JsonValue} {place : List Step}
      (found : items[i]? = some value) (below : Leaf value place x) : Leaf (.arr items) (.item i :: place) x
  | text {s : String} {parsed x : JsonValue} {place : List Step} (read : codec.jsonText s = some parsed)
      (below : Leaf parsed place x) : Leaf (.str s) (.text :: place) x
  | pair {s name raw : String} {i : ℕ} (unread : codec.jsonText s = none)
      (found : (formPairs s)[i]? = some (some (name, raw))) : Leaf (.str s) [.pair i] (.str raw)

/-- The texts that are read within a value. -/
inductive Reads : JsonValue → JsonValue → Prop where
  | field {fields : List (String × JsonValue)} {name : String} {value parsed : JsonValue}
      (found : fields.lookup name = some value) (below : Reads value parsed) : Reads (.obj fields) parsed
  | item {items : List JsonValue} {i : ℕ} {value parsed : JsonValue} (found : items[i]? = some value)
      (below : Reads value parsed) : Reads (.arr items) parsed
  | here {s : String} {parsed : JsonValue} (read : codec.jsonText s = some parsed) : Reads (.str s) parsed
  | text {s : String} {parsed inner : JsonValue} (read : codec.jsonText s = some parsed)
      (below : Reads parsed inner) :
      Reads (.str s) inner

/-- A value that is read back from the text it is written in. -/
def RoundTrips (value : JsonValue) : Prop := codec.parse (codec.stringify value) = some value

variable (toLowerCase : String → String) (coding : PercentCoding)

/-- Texts within a value that are written back as they are redacted. -/
def TextsRoundTrip (value : JsonValue) : Prop :=
  ∀ parsed, Reads codec value parsed → RoundTrips codec (redactValue toLowerCase coding codec parsed)

/-- Places of a value that its names, or the look of its texts, say to hide. -/
inductive Concealed : JsonValue → List Step → Prop where
  | looks {s : String} {place : List Step} (sensitive : looksSensitive s = true) : Concealed (.str s) place
  | name {fields : List (String × JsonValue)} {name : String} {place : List Step}
      (sensitive : isSensitiveName toLowerCase name = true ∨ name = "__proto__") :
      Concealed (.obj fields) (.field name :: place)
  | field {fields : List (String × JsonValue)} {name : String} {value : JsonValue} {place : List Step}
      (found : fields.lookup name = some value) (below : Concealed value place) :
      Concealed (.obj fields) (.field name :: place)
  | item {items : List JsonValue} {i : ℕ} {value : JsonValue} {place : List Step} (found : items[i]? = some value)
      (below : Concealed value place) : Concealed (.arr items) (.item i :: place)
  | text {s : String} {parsed : JsonValue} {place : List Step} (read : codec.jsonText s = some parsed)
      (below : Concealed parsed place) : Concealed (.str s) (.text :: place)
  | pair {s name raw : String} {i : ℕ} (unread : codec.jsonText s = none)
      (found : (formPairs s)[i]? = some (some (name, raw))) (hides : hidesPair toLowerCase coding name raw = true) :
      Concealed (.str s) [.pair i]

/-- A leaf that `redactBody`, given the value itself, does not show in its place. -/
def Hides (value : JsonValue) (place : List Step) (x : JsonValue) : Prop :=
  Leaf codec value place x ∧ x ≠ .str REDACTED ∧ ¬ Stands codec (redactValue toLowerCase coding codec value) place x

end Reading

section Forms

variable {toLowerCase : String → String} {coding : PercentCoding} {pair name raw value : String}

theorem pairParts_spec (parts : pairParts pair = some (name, raw)) :
    pair = name ++ "=" ++ raw ∧ '=' ∉ name.toList := by
  have whole := List.takeWhile_append_dropWhile (p := fun c => decide (c ≠ '=')) (l := pair.toList)
  rw [pairParts] at parts
  split at parts
  · cases parts
  · rename_i mark raw' after
    cases parts
    have first : mark = '=' := by
      have head := List.head?_dropWhile_not (fun c => decide (c ≠ '=')) pair.toList
      rw [after] at head
      simpa using head
    subst first
    constructor
    · rw [← String.toList_inj, String.toList_append, String.toList_append,
        String.toList_ofList, String.toList_ofList]
      rw [after] at whole
      simpa using whole.symm
    · rw [String.toList_ofList]
      intro member
      simpa using List.mem_takeWhile_imp member

theorem pairParts_joined (free : '=' ∉ name.toList) (raw : String) :
    pairParts (name ++ "=" ++ raw) = some (name, raw) := by
  have list : (name ++ "=" ++ raw).toList = name.toList ++ '=' :: raw.toList := by simp
  have taken : ∀ c ∈ name.toList, decide (c ≠ '=') = true := by
    intro c member
    simpa using fun equal : c = '=' => free (equal ▸ member)
  rw [pairParts, list, List.dropWhile_append_of_pos taken, List.takeWhile_append_of_pos taken]
  simp

theorem pairParts_eq_none : pairParts pair = none ↔ '=' ∉ pair.toList := by
  constructor
  · intro absent member
    rw [pairParts] at absent
    split at absent
    · rename_i rest
      rw [List.dropWhile_eq_nil_iff] at rest
      simpa using rest '=' member
    · cases absent
  · intro absent
    cases parts : pairParts pair with
    | none => rfl
    | some found =>
      obtain ⟨equal, -⟩ := pairParts_spec parts
      rw [equal] at absent
      simp at absent

/-- A pair that is hidden keeps its name. -/
theorem pairParts_redactPair : pairParts (redactPair toLowerCase coding pair) =
    (pairParts pair).map fun parts => (parts.1,
      if hidesPair toLowerCase coding parts.1 parts.2 then REDACTED else parts.2) := by
  rw [redactPair]
  cases parts : pairParts pair with
  | none => exact parts
  | some found =>
    obtain ⟨name, raw⟩ := found
    obtain ⟨-, free⟩ := pairParts_spec parts
    by_cases hidden : hidesPair toLowerCase coding name raw = true
    · simp only [hidden, if_true, Option.map_some, pairParts_joined free]
    · simp only [if_neg hidden, Option.map_some]
      exact parts

theorem plain_redactPair (plain : Segments.Plain '&' pair) :
    Segments.Plain '&' (redactPair toLowerCase coding pair) := by
  rw [redactPair]
  cases parts : pairParts pair with
  | none => exact plain
  | some found =>
    obtain ⟨name, raw⟩ := found
    obtain ⟨equal, -⟩ := pairParts_spec parts
    simp only
    split
    · rw [equal] at plain
      have free : '&' ∉ name.toList := fun member => plain (by simp [member])
      simp [Segments.Plain, free, REDACTED]
    · exact plain

/-- A form is redacted pair by pair. -/
theorem redactFormEncoded_eq : redactFormEncoded toLowerCase coding value =
    "&".intercalate ((Segments.split '&' value).map (redactPair toLowerCase coding)) := by
  have untouched : (∀ pair ∈ Segments.split '&' value, redactPair toLowerCase coding pair = pair) →
      value = "&".intercalate ((Segments.split '&' value).map (redactPair toLowerCase coding)) := by
    intro same
    rw [List.map_congr_left same, List.map_id']
    exact (Segments.intercalate_split '&' value).symm
  rw [redactFormEncoded]
  by_cases mark : '=' ∉ value.toList
  · rw [if_pos mark]
    refine untouched fun pair member => ?_
    have none_ := pairParts_eq_none.mpr fun within => mark (Segments.mem_of_mem_split member within)
    rw [redactPair, none_]
  · rw [if_neg mark]
    simp only
    split
    · rfl
    · rename_i calm
      refine untouched fun pair member => ?_
      rw [redactPair]
      cases parts : pairParts pair with
      | none => rfl
      | some found =>
        refine if_neg fun hidden => calm ?_
        exact List.any_eq_true.mpr ⟨pair, member, by rw [parts]; exact hidden⟩

theorem split_redactFormEncoded : Segments.split '&' (redactFormEncoded toLowerCase coding value) =
    (Segments.split '&' value).map (redactPair toLowerCase coding) := by
  have plain : ∀ piece ∈ (Segments.split '&' value).map (redactPair toLowerCase coding),
      Segments.Plain '&' piece := by
    intro piece member
    obtain ⟨pair, among, rfl⟩ := List.mem_map.mp member
    exact plain_redactPair (Segments.plain_of_mem_split among)
  rw [redactFormEncoded_eq]
  exact Segments.split_intercalate plain (by simp [Segments.split_ne_nil])

/-- Redacting a form leaves its pairs in place, each with its name. -/
theorem formPairs_redactFormEncoded : formPairs (redactFormEncoded toLowerCase coding value) =
    (formPairs value).map (Option.map fun parts =>
      (parts.1, if hidesPair toLowerCase coding parts.1 parts.2 then REDACTED else parts.2)) := by
  rw [formPairs, split_redactFormEncoded, formPairs, List.map_map, List.map_map]
  exact List.map_congr_left fun pair _ => pairParts_redactPair

/-- Two pairs that differ, if at all, in values that are hidden or stand for hidden ones. -/
def PairsMasked (toLowerCase : String → String) (coding : PercentCoding) (pair pair' : String) : Prop :=
  pair = pair' ∨ ∃ name raw raw', pairParts pair = some (name, raw) ∧ pairParts pair' = some (name, raw') ∧
    (hidesPair toLowerCase coding name raw = true ∨ raw = REDACTED) ∧
      (hidesPair toLowerCase coding name raw' = true ∨ raw' = REDACTED)

theorem redactPair_masked (parts : pairParts pair = some (name, raw))
    (masked : hidesPair toLowerCase coding name raw = true ∨ raw = REDACTED) :
    redactPair toLowerCase coding pair = name ++ "=" ++ REDACTED := by
  simp only [redactPair, parts]
  split
  · rfl
  · rename_i calm
    rw [(pairParts_spec parts).1, masked.resolve_left calm]

theorem redactPair_eq_iff {pair' : String} :
    redactPair toLowerCase coding pair = redactPair toLowerCase coding pair' ↔
      PairsMasked toLowerCase coding pair pair' := by
  constructor
  · intro same
    have parts := congrArg pairParts same
    rw [pairParts_redactPair, pairParts_redactPair] at parts
    cases read : pairParts pair with
    | none =>
      cases read' : pairParts pair' with
      | none =>
        left
        simpa only [redactPair, read, read'] using same
      | some found =>
        rw [read, read'] at parts
        cases parts
    | some found =>
      cases read' : pairParts pair' with
      | none =>
        rw [read, read'] at parts
        cases parts
      | some found' =>
        obtain ⟨name, raw⟩ := found
        obtain ⟨name', raw'⟩ := found'
        simp only [read, read', Option.map_some, Option.some.injEq, Prod.mk.injEq] at parts
        obtain ⟨rfl, values⟩ := parts
        by_cases hides : hidesPair toLowerCase coding name raw = true
        · by_cases hides' : hidesPair toLowerCase coding name raw' = true
          · exact .inr ⟨name, raw, raw', read, read', .inl hides, .inl hides'⟩
          · rw [if_pos hides, if_neg hides'] at values
            exact .inr ⟨name, raw, raw', read, read', .inl hides, .inr values.symm⟩
        · by_cases hides' : hidesPair toLowerCase coding name raw' = true
          · rw [if_neg hides, if_pos hides'] at values
            exact .inr ⟨name, raw, raw', read, read', .inr values, .inl hides'⟩
          · rw [if_neg hides, if_neg hides'] at values
            left
            rw [(pairParts_spec read).1, (pairParts_spec read').1, values]
  · rintro (rfl | ⟨name, raw, raw', read, read', masked, masked'⟩)
    · rfl
    · rw [redactPair_masked read masked, redactPair_masked read' masked']

/-- Two forms are redacted alike just where their pairs are. -/
theorem redactFormEncoded_eq_iff {value' : String} :
    redactFormEncoded toLowerCase coding value = redactFormEncoded toLowerCase coding value' ↔
      List.Forall₂ (PairsMasked toLowerCase coding) (Segments.split '&' value) (Segments.split '&' value') := by
  have pairs : (Segments.split '&' value).map (redactPair toLowerCase coding) =
        (Segments.split '&' value').map (redactPair toLowerCase coding) ↔
      List.Forall₂ (PairsMasked toLowerCase coding) (Segments.split '&' value) (Segments.split '&' value') := by
    rw [← List.forall₂_eq_eq_eq, List.forall₂_map_left_iff, List.forall₂_map_right_iff]
    simp only [redactPair_eq_iff]
  rw [← pairs]
  constructor
  · intro same
    have split := congrArg (Segments.split '&') same
    rwa [split_redactFormEncoded, split_redactFormEncoded] at split
  · intro same
    rw [redactFormEncoded_eq, redactFormEncoded_eq, same]

/-- A form none of whose pairs is hidden is put as it is. -/
theorem redactFormEncoded_untouched
    (calm : ∀ name raw, some (name, raw) ∈ formPairs value → hidesPair toLowerCase coding name raw = false) :
    redactFormEncoded toLowerCase coding value = value := by
  have same : (Segments.split '&' value).map (redactPair toLowerCase coding) = Segments.split '&' value := by
    refine (List.map_congr_left fun pair member => ?_).trans (List.map_id _)
    cases parts : pairParts pair with
    | none => simp only [redactPair, parts, id]
    | some found =>
      have among : some found ∈ formPairs value := List.mem_map.mpr ⟨pair, member, parts⟩
      simp only [redactPair, parts, calm _ _ among, Bool.false_eq_true, if_false, id]
  rw [redactFormEncoded_eq, same]
  exact Segments.intercalate_split '&' value

end Forms

section Look

variable {value : String} {text : List Char}

/-- Nothing that looks sensitive opens with a bracket or a quote. -/
theorem looksSensitive_opening {c : Char} (opens : (trimmed value.toList).head? = some c)
    (mark : c = '{' ∨ c = '[' ∨ c = '"') : looksSensitive value = false := by
  obtain ⟨rest, shape⟩ : ∃ rest, trimmed value.toList = c :: rest := by
    cases chars : trimmed value.toList with
    | nil => simp [chars] at opens
    | cons d rest =>
      rw [chars, List.head?_cons, Option.some.injEq] at opens
      exact ⟨rest, by rw [opens]⟩
  rw [looksSensitive, shape]
  rcases mark with rfl | rfl | rfl
  · simp [schemePattern, jwtPattern, keyPatterns, KeyPattern.test, ignoringCase]
  · simp [schemePattern, jwtPattern, keyPatterns, KeyPattern.test, ignoringCase]
  · simp [schemePattern, jwtPattern, keyPatterns, KeyPattern.test, ignoringCase]

theorem schemePattern_free (free : ∀ c ∈ text, isSpace c = false) : schemePattern text = false := by
  rw [schemePattern, List.any_eq_false]
  intro word _ found
  simp only [Bool.and_eq_true, Option.any_eq_true] at found
  obtain ⟨-, ⟨c, first, space⟩, -⟩ := found
  have member : c ∈ text := List.mem_of_mem_drop (List.mem_of_mem_head? first)
  rw [free c member] at space
  cases space

theorem KeyPattern.test_free {pattern : KeyPattern} (bare : '=' ∉ pattern.lead.toList)
    (other : pattern.kind '=' = false) (mark : '=' ∈ text) : pattern.test text = false := by
  rw [KeyPattern.test, Bool.and_eq_false_iff]
  by_cases lead : pattern.lead.toList <+: text
  · right
    obtain ⟨rest, rfl⟩ := lead
    have after : '=' ∈ rest := (List.mem_append.mp mark).resolve_left bare
    rw [← String.length_toList, List.drop_left, Bool.and_eq_false_iff]
    left
    rw [List.all_eq_false]
    exact ⟨'=', after, by simp [other]⟩
  · left
    exact decide_eq_false lead

theorem jwtPattern_free (mark : '=' ∈ text) : jwtPattern text = false := by
  rw [jwtPattern, Bool.and_eq_false_iff]
  by_cases lead : "eyJ".toList <+: text
  · right
    obtain ⟨rest, rfl⟩ := lead
    have after : '=' ∈ rest := (List.mem_append.mp mark).resolve_left (by decide)
    have dropped : ("eyJ".toList ++ rest).drop 3 = rest := List.drop_left' rfl
    rw [dropped]
    split
    · rename_i a b c pieces
      have whole : ['.'].intercalate (rest.splitOn '.') = rest := List.intercalate_splitOn ..
      rw [pieces] at whole
      have member : '=' ∈ a ++ b ++ c := by
        rw [← whole] at after
        simpa [List.intercalate] using after
      rw [Bool.and_eq_false_iff]
      right
      rw [List.all_eq_false]
      exact ⟨'=', member, by decide⟩
    · rfl
  · left
    exact decide_eq_false lead

/-- Nothing that looks sensitive is a form without spaces in it. -/
theorem looksSensitive_form (free : ∀ c ∈ value.toList, isSpace c = false) (mark : '=' ∈ value.toList) :
    looksSensitive value = false := by
  have keys : keyPatterns.any (fun pattern => pattern.test value.toList) = false := by
    rw [List.any_eq_false]
    intro pattern member
    have bare : ∀ pattern ∈ keyPatterns, '=' ∉ pattern.lead.toList ∧ pattern.kind '=' = false := by decide
    rw [KeyPattern.test_free (bare pattern member).1 (bare pattern member).2 mark]
    exact Bool.false_ne_true
  rw [looksSensitive, trimmed_eq_self free]
  simp only [schemePattern_free free, jwtPattern_free mark, keys, Bool.or_self]

end Look

section Object

variable {toLowerCase : String → String} {coding : PercentCoding} {codec : JsonCodec} {value s name : String}
  {t x parsed : JsonValue} {place : List Step}

theorem jsonText_opens (read : codec.jsonText value = some parsed) :
    (trimmed value.toList).head? = some '{' ∨ (trimmed value.toList).head? = some '[' := by
  rw [JsonCodec.jsonText] at read
  split at read
  · assumption
  · cases read

theorem jsonText_calm (read : codec.jsonText value = some parsed) : looksSensitive value = false :=
  (jsonText_opens read).elim (fun opens => looksSensitive_opening opens (.inl rfl))
    fun opens => looksSensitive_opening opens (.inr (.inl rfl))

theorem jsonText_container (read : codec.jsonText value = some parsed) : parsed.isContainer = true := by
  rw [JsonCodec.jsonText] at read
  split at read
  · exact (Option.filter_eq_some_iff.mp read).2
  · cases read

/-- A container is read back from its text where texts are taken for JSON. -/
theorem jsonText_stringify (container : t.isContainer = true) (trips : RoundTrips codec t) :
    codec.jsonText (codec.stringify t) = some t := by
  obtain ⟨opens, closes⟩ := codec.bracketed t container
  have whole : trimmed (codec.stringify t).toList = (codec.stringify t).toList := by
    refine trimmed_of_ends (fun c first => ?_) closes
    rcases opens with opens | opens
    · rw [opens] at first
      cases first
      decide
    · rw [opens] at first
      cases first
      decide
  simp only [JsonCodec.jsonText, whole, opens, if_true, String.ofList_toList]
  rw [show codec.parse (codec.stringify t) = some t from trips, Option.filter_some, if_pos container]

theorem isContainer_redactValue (container : t.isContainer = true) :
    (redactValue toLowerCase coding codec t).isContainer = true := by
  cases t with
  | arr items => rw [redactValue]; rfl
  | obj fields => rw [redactValue]; rfl
  | _ => cases container

theorem jsonText_placeholder : codec.jsonText REDACTED = none := by
  have shape : String.ofList (trimmed REDACTED.toList) = REDACTED := by decide
  simp only [JsonCodec.jsonText, shape, codec.placeholder, Option.filter_none, ite_self]

theorem redactString_looks (sensitive : looksSensitive s = true) :
    redactString toLowerCase coding codec s = REDACTED := by
  rw [redactString, if_pos sensitive]

theorem redactString_json (read : codec.jsonText s = some parsed) :
    redactString toLowerCase coding codec s = codec.stringify (redactValue toLowerCase coding codec parsed) := by
  rw [redactString, if_neg (by simp [jsonText_calm read])]
  split
  · rename_i found
    rw [read] at found
    cases found
    rfl
  · rename_i absent
    rw [read] at absent
    cases absent

theorem redactString_form (calm : looksSensitive s = false) (unread : codec.jsonText s = none) :
    redactString toLowerCase coding codec s = redactFormEncoded toLowerCase coding s := by
  rw [redactString, if_neg (by simp [calm])]
  split
  · rename_i found
    rw [unread] at found
    cases found
  · rfl

theorem redactValue_str : redactValue toLowerCase coding codec (.str s) =
    .str (redactString toLowerCase coding codec s) := by
  rw [redactValue]

theorem redactValue_scalar (scalar : x.isScalar = true) : redactValue toLowerCase coding codec x = x := by
  cases x with
  | null | bool | num => rw [redactValue] <;> simp
  | str | arr | obj => cases scalar

theorem lookup_redactFields (fields : List (String × JsonValue)) :
    (redactFields toLowerCase coding codec fields).lookup name =
      if name = "__proto__" then none
      else (fields.lookup name).map fun value =>
        if isSensitiveName toLowerCase name then .str REDACTED else redactValue toLowerCase coding codec value := by
  induction fields with
  | nil =>
    rw [redactFields]
    simp
  | cons field rest ih =>
    obtain ⟨key, value⟩ := field
    rw [redactFields]
    by_cases dropped : key = "__proto__"
    · rw [if_pos dropped, ih]
      by_cases asked : name = "__proto__"
      · simp only [if_pos asked]
      · have apart : (name == key) = false := by simpa [dropped] using asked
        rw [List.lookup_cons, apart]
    · rw [if_neg dropped, List.lookup_cons, List.lookup_cons]
      by_cases here : name = key
      · subst here
        simp [dropped]
      · have apart : (name == key) = false := by simpa using here
        simp only [apart, ih]

theorem getElem?_redactItems (items : List JsonValue) (i : ℕ) :
    (redactItems toLowerCase coding codec items)[i]? = items[i]?.map (redactValue toLowerCase coding codec) := by
  induction items generalizing i with
  | nil =>
    rw [redactItems]
    simp
  | cons item rest ih =>
    rw [redactItems]
    cases i with
    | zero => simp
    | succ i => simpa using ih i

/-- The placeholder shows nothing but itself. -/
theorem stands_placeholder (stands : Stands codec (.str REDACTED) place x) : x = .str REDACTED := by
  cases stands with
  | scalar scalar => rfl
  | plain => rfl
  | text read below =>
    rw [jsonText_placeholder] at read
    cases read
  | @pair _ _ _ i found =>
    have pairs : formPairs REDACTED = [none] := by decide
    rw [pairs] at found
    cases i with
    | zero => simp at found
    | succ i => simp at found

theorem getElem?_formPairs_redact {raw : String} {i : ℕ} (found : (formPairs s)[i]? = some (some (name, raw))) :
    (formPairs (redactFormEncoded toLowerCase coding s))[i]? =
      some (some (name, if hidesPair toLowerCase coding name raw then REDACTED else raw)) := by
  rw [formPairs_redactFormEncoded, List.getElem?_map, found]
  rfl

theorem stands_field {fields : List (String × JsonValue)} :
    Stands codec (.obj fields) (.field name :: place) x ↔
      ∃ value, fields.lookup name = some value ∧ Stands codec value place x := by
  refine ⟨fun stands => ?_, fun ⟨_, found, below⟩ => .field found below⟩
  cases stands with
  | field found below => exact ⟨_, found, below⟩

theorem stands_item {items : List JsonValue} {i : ℕ} :
    Stands codec (.arr items) (.item i :: place) x ↔ ∃ value, items[i]? = some value ∧
      Stands codec value place x := by
  refine ⟨fun stands => ?_, fun ⟨_, found, below⟩ => .item found below⟩
  cases stands with
  | item found below => exact ⟨_, found, below⟩

theorem stands_text :
    Stands codec (.str s) (.text :: place) x ↔ ∃ parsed, codec.jsonText s = some parsed ∧
      Stands codec parsed place x := by
  refine ⟨fun stands => ?_, fun ⟨_, read, below⟩ => .text read below⟩
  cases stands with
  | text read below => exact ⟨_, read, below⟩

theorem stands_pair {i : ℕ} :
    Stands codec (.str s) [.pair i] x ↔ ∃ name raw, (formPairs s)[i]? = some (some (name, raw)) ∧ x = .str raw := by
  refine ⟨fun stands => ?_, fun ⟨_, _, found, same⟩ => same ▸ .pair found⟩
  cases stands with
  | pair found => exact ⟨_, _, found, rfl⟩

/-- What the object branch does to a leaf: it goes where a name or a text it is in
is to be hidden, and stays elsewhere. -/
theorem stands_redactValue (leaf : Leaf codec t place x) (secret : x ≠ .str REDACTED)
    (written : TextsRoundTrip codec toLowerCase coding t) :
    Stands codec (redactValue toLowerCase coding codec t) place x ↔
      ¬ Concealed codec toLowerCase coding t place := by
  induction leaf with
  | @scalar x scalar =>
    rw [redactValue_scalar scalar]
    refine ⟨fun _ concealed => ?_, fun _ => .scalar scalar⟩
    cases concealed
    cases scalar
  | @plain s unread pairless =>
    rw [redactValue_str]
    by_cases looks : looksSensitive s = true
    · rw [redactString_looks looks]
      exact ⟨fun stands => absurd (stands_placeholder stands) secret, fun free => absurd (.looks looks) free⟩
    · rw [redactString_form (by simpa using looks) unread, redactFormEncoded, if_pos pairless]
      refine ⟨fun _ concealed => ?_, fun _ => .plain s⟩
      cases concealed
      exact looks ‹_›
  | @field fields name value x place found below ih =>
    have inner : TextsRoundTrip codec toLowerCase coding value :=
      fun parsed reads => written parsed (.field found reads)
    rw [redactValue, stands_field]
    simp only [lookup_redactFields, found, Option.map_some, Option.ite_none_left_eq_some, Option.some.injEq]
    by_cases hidden : isSensitiveName toLowerCase name = true ∨ name = "__proto__"
    · refine ⟨?_, fun free => absurd (.name hidden) free⟩
      rintro ⟨shown, ⟨kept, same⟩, stands⟩
      rw [if_pos (hidden.resolve_right kept)] at same
      exact absurd (stands_placeholder (same ▸ stands)) secret
    · have apart := not_or.mp hidden
      have concealed : Concealed codec toLowerCase coding (.obj fields) (.field name :: place) ↔
          Concealed codec toLowerCase coding value place := by
        refine ⟨fun concealed => ?_, fun below => .field found below⟩
        cases concealed with
        | name sensitive => exact absurd sensitive hidden
        | field found' below' =>
          rw [found] at found'
          cases found'
          exact below'
      rw [concealed, ← ih secret inner, if_neg apart.1]
      constructor
      · rintro ⟨_, ⟨-, rfl⟩, stands⟩
        exact stands
      · intro stands
        exact ⟨_, ⟨apart.2, rfl⟩, stands⟩
  | @item items i value x place found below ih =>
    have inner : TextsRoundTrip codec toLowerCase coding value :=
      fun parsed reads => written parsed (.item found reads)
    have concealed : Concealed codec toLowerCase coding (.arr items) (.item i :: place) ↔
        Concealed codec toLowerCase coding value place := by
      refine ⟨fun concealed => ?_, fun below => .item found below⟩
      cases concealed with
      | item found' below' =>
        rw [found] at found'
        cases found'
        exact below'
    rw [redactValue, stands_item, concealed, ← ih secret inner]
    simp only [getElem?_redactItems, found, Option.map_some, Option.some.injEq, exists_eq_left']
  | @text s parsed x place read below ih =>
    have inner : TextsRoundTrip codec toLowerCase coding parsed :=
      fun deeper reads => written deeper (.text read reads)
    have concealed : Concealed codec toLowerCase coding (.str s) (.text :: place) ↔
        Concealed codec toLowerCase coding parsed place := by
      refine ⟨fun concealed => ?_, fun below => .text read below⟩
      cases concealed with
      | looks sensitive =>
        rw [jsonText_calm read] at sensitive
        cases sensitive
      | text read' below' =>
        rw [read] at read'
        cases read'
        exact below'
    have again : codec.jsonText (codec.stringify (redactValue toLowerCase coding codec parsed)) =
        some (redactValue toLowerCase coding codec parsed) :=
      jsonText_stringify (isContainer_redactValue (jsonText_container read)) (written parsed (.here read))
    rw [redactValue_str, redactString_json read, stands_text, concealed, ← ih secret inner, again]
    simp only [Option.some.injEq, exists_eq_left']
  | @pair s name raw i unread found =>
    rw [redactValue_str]
    by_cases looks : looksSensitive s = true
    · rw [redactString_looks looks]
      exact ⟨fun stands => absurd (stands_placeholder stands) secret, fun free => absurd (.looks looks) free⟩
    · have concealed : Concealed codec toLowerCase coding (.str s) [.pair i] ↔
          hidesPair toLowerCase coding name raw = true := by
        refine ⟨fun concealed => ?_, fun hides => .pair unread found hides⟩
        cases concealed with
        | looks sensitive => exact absurd sensitive looks
        | pair unread' found' hides =>
          rw [found] at found'
          cases found'
          exact hides
      rw [redactString_form (by simpa using looks) unread, stands_pair, concealed, getElem?_formPairs_redact found]
      by_cases hides : hidesPair toLowerCase coding name raw = true
      · simp only [hides, not_true_eq_false, iff_false]
        rintro ⟨_, _, same, shown⟩
        cases same
        exact secret shown
      · simp [hides]

end Object

end Dianemo
