import Dianemo.JsNumber
import Dianemo.Library.Segments

namespace Dianemo

/-- A value as `JSON.parse` gives it, an overflowing number as an infinity. An
object's fields are in order, each name once. -/
inductive JsonValue where
  | null
  | bool (b : Bool)
  | num (x : JsNumber)
  | str (s : String)
  | arr (items : List JsonValue)
  | obj (fields : List (String × JsonValue))

namespace JsonValue

/-- The own enumerable properties of a value, as a spread copies them. -/
def entries : JsonValue → List (String × JsonValue)
  | .obj fields => fields
  | .arr items => items.zipIdx.map fun item => (toString item.2, item.1)
  | .str s => s.toList.zipIdx.map fun c => (toString c.2, .str (String.singleton c.1))
  | _ => []

/-- A property of a value that is not `null`; only objects have any of the names the code asks for. -/
def get (value : JsonValue) (name : String) : Option JsonValue :=
  match value with
  | .obj fields => fields.lookup name
  | _ => none

/-- `{ ...value, [name]: given }`. -/
def spreadWith (value : JsonValue) (name : String) (given : JsonValue) : JsonValue :=
  let fields := value.entries
  .obj (if fields.any fun field => field.1 = name then
      fields.map fun field => if field.1 = name then (name, given) else field
    else fields ++ [(name, given)])

/-- `===` on what may be missing; objects and arrays of different origin differ. -/
def strictEqual : Option JsonValue → Option JsonValue → Bool
  | none, none => true
  | some .null, some .null => true
  | some (.bool a), some (.bool b) => a = b
  | some (.num a), some (.num b) => a ≠ .nan && a = b
  | some (.str a), some (.str b) => a = b
  | _, _ => false

variable {name other : String} {given : JsonValue}

theorem lookup_replace {α : Type} {given : α} (fields : List (String × α)) :
    (fields.map fun field => if field.1 = name then (name, given) else field).lookup other =
      if other = name then (if fields.any (fun field => field.1 = name) then some given else none) else
        fields.lookup other := by
  induction fields with
  | nil => simp
  | cons field rest ih =>
    obtain ⟨key, value⟩ := field
    simp only [List.map_cons, List.any_cons]
    by_cases here : key = name
    · subst here
      by_cases asked : other = key
      · simp [asked]
      · have apart : (other == key) = false := by simpa using asked
        simp only [if_true, List.lookup_cons, apart, ih, if_neg asked]
    · by_cases asked : other = name
      · subst asked
        have apart : (other == key) = false := by simpa using Ne.symm here
        simp only [if_neg here, List.lookup_cons, apart, ih, decide_eq_false here, Bool.false_or]
      · simp only [if_neg here, List.lookup_cons, ih, if_neg asked]

theorem lookup_eq_none_of_any {α : Type} (fields : List (String × α))
    (absent : ¬ (fields.any fun field => field.1 = name) = true) : fields.lookup name = none := by
  rw [List.lookup_eq_none_iff]
  intro field member
  simp only [List.any_eq_true, decide_eq_true_eq, not_exists, not_and] at absent
  simpa using Ne.symm (absent field member)

/-- What a spread object holds. -/
theorem get_spreadWith (value : JsonValue) :
    (value.spreadWith name given).get other = if other = name then some given else value.entries.lookup other := by
  rw [spreadWith, get]
  by_cases present : (value.entries.any fun field => field.1 = name) = true
  · simp only [if_pos present, lookup_replace]
  · simp only [if_neg present, List.lookup_append]
    by_cases asked : other = name
    · subst asked
      simp [lookup_eq_none_of_any _ present]
    · have apart : (other == name) = false := by simpa using asked
      simp [List.lookup_cons, apart, asked]

theorem lookup_indices {c : Char} (letter : c.isDigit = false) (member : c ∈ name.toList)
    {α : Type} (items : List (α × ℕ))
    (read : α → JsonValue) : (items.map fun item => (toString item.2, read item.1)).lookup name = none := by
  rw [List.lookup_eq_none_iff]
  intro field among
  obtain ⟨item, -, rfl⟩ := List.mem_map.mp among
  simpa using (Segments.repr_ne item.2 letter member).symm

/-- A name with a letter in it is no index. -/
theorem lookup_entries {c : Char} (letter : c.isDigit = false) (member : c ∈ name.toList) (value : JsonValue) :
    value.entries.lookup name = value.get name := by
  cases value with
  | null | bool | num => rfl
  | obj fields => rfl
  | arr items => exact lookup_indices letter member items.zipIdx id
  | str s => exact lookup_indices letter member s.toList.zipIdx fun c => .str (String.singleton c)

end JsonValue

end Dianemo
