import Dianemo.JsNumber

namespace Dianemo

/-- A value in a client's config. A plain object's fields are its own enumerable
properties, in order; anything that is neither plain nor an array (an
`http.Agent`, a `Buffer`) is a reference to one such thing. -/
inductive ConfigValue where
  | undefined
  | null
  | bool (b : Bool)
  | num (x : JsNumber)
  | str (s : String)
  | function (identity : ℕ)
  | reference (identity : ℕ)
  | array (items : List ConfigValue)
  | object (fields : List (String × ConfigValue))

namespace ConfigValue

mutual

/-- `deepEqualIgnoringFunctionIdentity`, on values no two of which share a plain object or an array. -/
def deepEqualIgnoringFunctionIdentity : ConfigValue → ConfigValue → Bool
  | .undefined, .undefined => true
  | .null, .null => true
  | .bool a, .bool b => a = b
  | .num a, .num b => a ≠ .nan && a = b
  | .str a, .str b => a = b
  | .function _, .function _ => true
  | .reference a, .reference b => a = b
  | .array a, .array b => a.length = b.length && everyEqual a b
  | .object a, .object b => a.length = b.length && fieldsEqual a b
  | _, _ => false

/-- `arrA.every((v, i) => …)`. -/
def everyEqual : List ConfigValue → List ConfigValue → Bool
  | a :: as, b :: bs => deepEqualIgnoringFunctionIdentity a b && everyEqual as bs
  | _, _ => true

/-- The loop over `aKeys`. -/
def fieldsEqual : List (String × ConfigValue) → List (String × ConfigValue) → Bool
  | [], _ => true
  | (k, a) :: rest, objB =>
    (match objB.lookup k with
      | none => false
      | some b => deepEqualIgnoringFunctionIdentity a b) && fieldsEqual rest objB

end

/-- A value that may be a prototype, other than `null`. -/
def isObject : ConfigValue → Bool
  | .function _ | .reference _ | .array _ | .object _ => true
  | _ => false

mutual

/-- `deepCloneWithFunctions`. Assigning to `cloned["__proto__"]` sets its
prototype; a copy that gets one of its own is no plain object, and `fresh` is
its identity. -/
def deepCloneWithFunctions (fresh : ℕ) : ConfigValue → ConfigValue
  | .array items => .array (cloneItems fresh items)
  | .object fields =>
    if fields.any fun field => field.1 = "__proto__" && field.2.isObject then .reference fresh
    else .object (cloneFields fresh fields)
  | value => value

def cloneItems (fresh : ℕ) : List ConfigValue → List ConfigValue
  | [] => []
  | item :: rest => deepCloneWithFunctions fresh item :: cloneItems fresh rest

def cloneFields (fresh : ℕ) : List (String × ConfigValue) → List (String × ConfigValue)
  | [] => []
  | (key, value) :: rest =>
    if key = "__proto__" then cloneFields fresh rest
    else (key, deepCloneWithFunctions fresh value) :: cloneFields fresh rest

end

/-- `clientDataEqual`, of two configs by their fields. -/
def clientDataEqual (a b : List (String × ConfigValue)) : Bool :=
  deepEqualIgnoringFunctionIdentity (.object (a.filter fun field => field.1 ≠ "subClients"))
    (.object (b.filter fun field => field.1 ≠ "subClients"))

/-- What a comparison of `v` comes by: itself, and what is in its plain objects and arrays. -/
inductive Within (w : ConfigValue) : ConfigValue → Prop
  | here : Within w w
  | item {items : List ConfigValue} {item : ConfigValue} : item ∈ items → Within w item → Within w (.array items)
  | field {fields : List (String × ConfigValue)} {field : String × ConfigValue} :
    field ∈ fields → Within w field.2 → Within w (.object fields)

/-- No object has two fields of one name. -/
def Distinct (v : ConfigValue) : Prop := ∀ fields, Within (.object fields) v → (fields.map Prod.fst).Nodup

/-- An object has a field of its own named `__proto__`, as `JSON.parse` can make one. -/
def Prototyped (v : ConfigValue) : Prop := ∃ fields, Within (.object fields) v ∧ "__proto__" ∈ fields.map Prod.fst

/-- By way of what is inside. -/
theorem induction_within {p : ConfigValue → Prop} (array : ∀ items, (∀ item ∈ items, p item) → p (.array items))
    (object : ∀ fields, (∀ field ∈ fields, p field.2) → p (.object fields))
    (leaf : ∀ v, (∀ items, v ≠ .array items) → (∀ fields, v ≠ .object fields) → p v) (v : ConfigValue) : p v := by
  induction h : sizeOf v using Nat.strong_induction_on generalizing v with
  | _ size ih =>
    subst h
    cases v with
    | array items =>
      refine array items fun item member => ih _ ?_ item rfl
      have smaller := List.sizeOf_lt_of_mem member
      simp only [ConfigValue.array.sizeOf_spec]
      omega
    | object fields =>
      refine object fields fun field member => ih _ ?_ field.2 rfl
      have smaller := List.sizeOf_lt_of_mem member
      obtain ⟨key, value⟩ := field
      simp only [ConfigValue.object.sizeOf_spec, Prod.mk.sizeOf_spec] at smaller ⊢
      omega
    | _ => exact leaf _ (by simp) (by simp)

section Within

variable {items : List ConfigValue} {fields : List (String × ConfigValue)} {v w : ConfigValue}

theorem Distinct.item (distinct : (array items).Distinct) : ∀ item ∈ items, item.Distinct :=
  fun _ member fields inside => distinct fields (.item member inside)

theorem Distinct.field (distinct : (object fields).Distinct) : ∀ field ∈ fields, field.2.Distinct :=
  fun _ member fields inside => distinct fields (.field member inside)

theorem Distinct.keys (distinct : (object fields).Distinct) : (fields.map Prod.fst).Nodup := distinct fields .here

theorem lookup_of_mem (keys : (fields.map Prod.fst).Nodup) {field : String × ConfigValue}
    (member : field ∈ fields) : fields.lookup field.1 = some field.2 := by
  induction fields with
  | nil => cases member
  | cons head rest ih =>
    obtain ⟨key, value⟩ := head
    rw [List.map_cons, List.nodup_cons] at keys
    rcases List.mem_cons.mp member with rfl | later
    · simp
    · have among : field.1 ∈ rest.map Prod.fst := List.mem_map_of_mem later
      have other : field.1 ≠ key := fun same => keys.1 (same ▸ among)
      have apart : (field.1 == key) = false := by simpa using other
      simp only [List.lookup_cons, apart, ih keys.2 later]

theorem mem_of_lookup {key : String} (found : fields.lookup key = some v) : (key, v) ∈ fields := by
  induction fields with
  | nil => cases found
  | cons head rest ih =>
    obtain ⟨first, value⟩ := head
    rw [List.lookup_cons] at found
    split at found
    · rename_i same
      rw [← Option.some.inj found, eq_of_beq same]
      exact List.mem_cons_self
    · exact List.mem_cons_of_mem _ (ih found)

end Within

section Compared

variable {a b c : ConfigValue} {as bs : List ConfigValue} {fa fb : List (String × ConfigValue)}

theorem everyEqual_iff (same : as.length = bs.length) :
    everyEqual as bs = true ↔ List.Forall₂ (fun a b => deepEqualIgnoringFunctionIdentity a b = true) as bs := by
  induction as generalizing bs with
  | nil => cases bs with
    | nil => simp [everyEqual]
    | cons => cases same
  | cons a as ih =>
    cases bs with
    | nil => cases same
    | cons b bs => rw [everyEqual, Bool.and_eq_true, List.forall₂_cons, ih (Nat.succ.inj same)]

theorem fieldsEqual_iff :
    fieldsEqual fa fb = true ↔
      ∀ field ∈ fa, ∃ b, fb.lookup field.1 = some b ∧ deepEqualIgnoringFunctionIdentity field.2 b = true := by
  induction fa with
  | nil => simp [fieldsEqual]
  | cons head rest ih =>
    obtain ⟨key, value⟩ := head
    rw [fieldsEqual, Bool.and_eq_true, ih, List.forall_mem_cons]
    refine and_congr_left fun _ => ?_
    cases fb.lookup key with
    | none => simp
    | some b => simp

theorem equal_array : deepEqualIgnoringFunctionIdentity (.array as) (.array bs) = true ↔
    List.Forall₂ (fun a b => deepEqualIgnoringFunctionIdentity a b = true) as bs := by
  rw [deepEqualIgnoringFunctionIdentity, Bool.and_eq_true, decide_eq_true_eq]
  constructor
  · rintro ⟨same, every⟩
    exact (everyEqual_iff same).mp every
  · intro every
    exact ⟨every.length_eq, (everyEqual_iff every.length_eq).mpr every⟩

theorem equal_object : deepEqualIgnoringFunctionIdentity (.object fa) (.object fb) = true ↔
    fa.length = fb.length ∧
      ∀ field ∈ fa, ∃ b, fb.lookup field.1 = some b ∧ deepEqualIgnoringFunctionIdentity field.2 b = true := by
  rw [deepEqualIgnoringFunctionIdentity, Bool.and_eq_true, decide_eq_true_eq, fieldsEqual_iff]

theorem equal_leaf (arrays : ∀ items, a ≠ .array items) (objects : ∀ fields, a ≠ .object fields) :
    deepEqualIgnoringFunctionIdentity a a = true ↔ a ≠ .num .nan := by
  cases a with
  | array items => exact absurd rfl (arrays items)
  | object fields => exact absurd rfl (objects fields)
  | _ => simp [deepEqualIgnoringFunctionIdentity]

/-- A value is found equal to a separately built copy exactly if no `NaN` is in it. -/
theorem equal_self (distinct : a.Distinct) :
    deepEqualIgnoringFunctionIdentity a a = true ↔ ¬ Within (.num .nan) a := by
  induction a using induction_within with
  | array items ih =>
    rw [equal_array, List.forall₂_same]
    constructor
    · intro every inside
      cases inside with
      | item member inside => exact (ih _ member (distinct.item _ member)).mp (every _ member) inside
    · intro clean item member
      exact (ih item member (distinct.item item member)).mpr fun inside => clean (.item member inside)
  | object fields ih =>
    rw [equal_object]
    constructor
    · rintro ⟨-, every⟩ inside
      cases inside with
      | field member inside =>
        obtain ⟨b, found, equal⟩ := every _ member
        rw [lookup_of_mem distinct.keys member] at found
        cases found
        exact (ih _ member (distinct.field _ member)).mp equal inside
    · intro clean
      refine ⟨rfl, fun field member => ⟨field.2, lookup_of_mem distinct.keys member, ?_⟩⟩
      exact (ih field member (distinct.field field member)).mpr fun inside => clean (.field member inside)
  | leaf v arrays objects =>
    rw [equal_leaf arrays objects, not_iff_not]
    constructor
    · rintro rfl
      exact .here
    · intro inside
      cases inside with
      | here => rfl
      | item => exact absurd rfl (arrays _)
      | field => exact absurd rfl (objects _)

theorem forall₂_swap {R S : ConfigValue → ConfigValue → Prop} (related : List.Forall₂ R as bs)
    (swap : ∀ a ∈ as, ∀ b ∈ bs, R a b → S b a) : List.Forall₂ S bs as := by
  induction related with
  | nil => exact .nil
  | cons first rest ih =>
    refine .cons (swap _ List.mem_cons_self _ List.mem_cons_self first) (ih fun a member b member' => ?_)
    exact swap a (List.mem_cons_of_mem _ member) b (List.mem_cons_of_mem _ member')

/-- Two objects of as many fields, one's names all the other's: each has the names of the other. -/
theorem keys_subset (keys : (fa.map Prod.fst).Nodup) (length : fa.length = fb.length)
    (subset : fa.map Prod.fst ⊆ fb.map Prod.fst) : fb.map Prod.fst ⊆ fa.map Prod.fst := by
  have perm : (fa.map Prod.fst).Perm (fb.map Prod.fst) :=
    (List.subperm_of_subset keys subset).perm_of_length_le (by simp [length])
  exact perm.symm.subset

theorem equal_symm (distinct : a.Distinct) (distinct' : b.Distinct)
    (equal : deepEqualIgnoringFunctionIdentity a b = true) : deepEqualIgnoringFunctionIdentity b a = true := by
  induction a using induction_within generalizing b with
  | array items ih =>
    cases b with
    | array others =>
      rw [equal_array] at equal ⊢
      exact forall₂_swap equal fun item member other member' =>
        ih item member (distinct.item item member) (distinct'.item other member')
    | _ => simp [deepEqualIgnoringFunctionIdentity] at equal
  | object fields ih =>
    cases b with
    | object others =>
      rw [equal_object] at equal ⊢
      obtain ⟨length, every⟩ := equal
      have subset : fields.map Prod.fst ⊆ others.map Prod.fst := by
        intro key named
        obtain ⟨field, member, rfl⟩ := List.mem_map.mp named
        obtain ⟨b, found, -⟩ := every field member
        exact List.mem_map.mpr ⟨_, mem_of_lookup found, rfl⟩
      refine ⟨length.symm, fun other member => ?_⟩
      obtain ⟨field, among, same⟩ :=
        List.mem_map.mp (keys_subset distinct.keys length subset (List.mem_map_of_mem member))
      obtain ⟨b, found, equal⟩ := every field among
      rw [same, lookup_of_mem distinct'.keys member] at found
      cases found
      refine ⟨field.2, ?_, ih field among (distinct.field field among) (distinct'.field other member) equal⟩
      rw [← same, lookup_of_mem distinct.keys among]
    | _ => simp [deepEqualIgnoringFunctionIdentity] at equal
  | leaf v arrays objects =>
    cases v with
    | array items => exact absurd rfl (arrays items)
    | object fields => exact absurd rfl (objects fields)
    | num x =>
      cases b with
      | num y =>
        simp only [deepEqualIgnoringFunctionIdentity, Bool.and_eq_true, decide_eq_true_eq] at equal ⊢
        exact ⟨equal.2 ▸ equal.1, equal.2.symm⟩
      | _ => simp [deepEqualIgnoringFunctionIdentity] at equal
    | _ =>
      cases b with
      | _ => simp_all [deepEqualIgnoringFunctionIdentity]

theorem forall₂_comp {R S : ConfigValue → ConfigValue → Prop} {cs : List ConfigValue} (first : List.Forall₂ R as bs)
    (second : List.Forall₂ R bs cs) (comp : ∀ a ∈ as, ∀ b c, R a b → R b c → S a c) : List.Forall₂ S as cs := by
  induction first generalizing cs with
  | nil =>
    cases second
    exact .nil
  | cons head rest ih =>
    cases second with
    | cons head' rest' =>
      refine .cons (comp _ List.mem_cons_self _ _ head head') (ih rest' fun a member => ?_)
      exact comp a (List.mem_cons_of_mem _ member)

theorem equal_trans (first : deepEqualIgnoringFunctionIdentity a b = true)
    (second : deepEqualIgnoringFunctionIdentity b c = true) : deepEqualIgnoringFunctionIdentity a c = true := by
  induction a using induction_within generalizing b c with
  | array items ih =>
    cases b with
    | array others =>
      cases c with
      | array more =>
        rw [equal_array] at first second ⊢
        exact forall₂_comp first second fun item member _ _ => ih item member
      | _ => simp [deepEqualIgnoringFunctionIdentity] at second
    | _ => simp [deepEqualIgnoringFunctionIdentity] at first
  | object fields ih =>
    cases b with
    | object others =>
      cases c with
      | object more =>
        rw [equal_object] at first second ⊢
        refine ⟨first.1.trans second.1, fun field member => ?_⟩
        obtain ⟨b, found, equal⟩ := first.2 field member
        obtain ⟨c, found', equal'⟩ := second.2 _ (mem_of_lookup found)
        exact ⟨c, found', ih field member equal equal'⟩
      | _ => simp [deepEqualIgnoringFunctionIdentity] at second
    | _ => simp [deepEqualIgnoringFunctionIdentity] at first
  | leaf v arrays objects =>
    cases v with
    | array items => exact absurd rfl (arrays items)
    | object fields => exact absurd rfl (objects fields)
    | _ =>
      cases b with
      | _ => cases c with
        | _ => simp_all [deepEqualIgnoringFunctionIdentity]

end Compared

section Cloned

variable {v : ConfigValue} {fields : List (String × ConfigValue)} {items : List ConfigValue} {fresh : ℕ}

theorem cloneItems_map : cloneItems fresh items = items.map (deepCloneWithFunctions fresh) := by
  induction items with
  | nil => rfl
  | cons item rest ih => rw [cloneItems, List.map_cons, ih]

theorem cloneFields_map : cloneFields fresh fields =
    (fields.filter fun field => field.1 ≠ "__proto__").map fun field =>
      (field.1, deepCloneWithFunctions fresh field.2) := by
  induction fields with
  | nil => rfl
  | cons field rest ih =>
    obtain ⟨key, value⟩ := field
    rw [cloneFields, ih]
    by_cases named : key = "__proto__"
    · simp [named]
    · simp [named]

/-- Without a field named `__proto__` anywhere, the copy is the value. -/
theorem clone_eq (plain : ¬ v.Prototyped) : deepCloneWithFunctions fresh v = v := by
  induction v using induction_within with
  | array items ih =>
    have inside : ∀ item ∈ items, ¬ item.Prototyped := fun item member ⟨fields, within, named⟩ =>
      plain ⟨fields, .item member within, named⟩
    rw [deepCloneWithFunctions, cloneItems_map,
      List.map_congr_left fun item member => ih item member (inside item member), List.map_id']
  | object fields ih =>
    have inside : ∀ field ∈ fields, ¬ field.2.Prototyped := fun field member ⟨others, within, named⟩ =>
      plain ⟨others, .field member within, named⟩
    have unnamed : ∀ field ∈ fields, field.1 ≠ "__proto__" := by
      intro field member named
      exact plain ⟨fields, .here, List.mem_map.mpr ⟨field, member, named⟩⟩
    have none_ : ¬ (fields.any fun field => decide (field.1 = "__proto__") && field.2.isObject) = true := by
      simp only [List.any_eq_true, Bool.and_eq_true, decide_eq_true_eq, not_exists, not_and]
      intro field member named
      exact absurd named (unnamed field member)
    have all : (fields.filter fun field => field.1 ≠ "__proto__") = fields := by
      rw [List.filter_eq_self]
      intro field member
      exact decide_eq_true (unnamed field member)
    rw [deepCloneWithFunctions, if_neg none_, cloneFields_map, all,
      List.map_congr_left fun field member => congrArg (Prod.mk field.1) (ih field member (inside field member)),
      List.map_id']
  | leaf v arrays objects =>
    cases v with
    | array items => exact absurd rfl (arrays items)
    | object fields => exact absurd rfl (objects fields)
    | _ => rfl

/-- A value equal to its copy has no field named `__proto__` in it. -/
theorem plain_of_equal_clone (distinct : v.Distinct)
    (equal : deepEqualIgnoringFunctionIdentity v (deepCloneWithFunctions fresh v) = true) : ¬ v.Prototyped := by
  induction v using induction_within with
  | array items ih =>
    rw [deepCloneWithFunctions, cloneItems_map, equal_array, List.forall₂_map_right_iff, List.forall₂_same] at equal
    rintro ⟨fields, within, named⟩
    cases within with
    | item member within => exact ih _ member (distinct.item _ member) (equal _ member) ⟨fields, within, named⟩
  | object fields ih =>
    rw [deepCloneWithFunctions] at equal
    split at equal
    · simp [deepEqualIgnoringFunctionIdentity] at equal
    · rw [cloneFields_map, equal_object, List.length_map] at equal
      obtain ⟨length, every⟩ := equal
      have unnamed : ∀ field ∈ fields, field.1 ≠ "__proto__" := by
        intro field member
        have all := List.length_filter_eq_length_iff.mp length.symm field member
        exact of_decide_eq_true all
      have all : (fields.filter fun field => field.1 ≠ "__proto__") = fields := by
        rw [List.filter_eq_self]
        intro field member
        exact decide_eq_true (unnamed field member)
      rintro ⟨others, within, named⟩
      cases within with
      | here =>
        obtain ⟨field, member, same⟩ := List.mem_map.mp named
        exact unnamed field member same
      | @field _ field member within =>
        obtain ⟨b, found, equal⟩ := every field member
        have keys : (((fields.filter fun field => field.1 ≠ "__proto__").map fun field =>
            (field.1, deepCloneWithFunctions fresh field.2)).map Prod.fst).Nodup := by
          rw [all, List.map_map]
          exact distinct.keys
        have copied : (field.1, deepCloneWithFunctions fresh field.2) ∈
            (fields.filter fun field => field.1 ≠ "__proto__").map fun field =>
              (field.1, deepCloneWithFunctions fresh field.2) := by
          rw [all]
          exact List.mem_map.mpr ⟨field, member, rfl⟩
        have same := lookup_of_mem keys copied
        rw [found] at same
        cases same
        exact ih field member (distinct.field field member) equal ⟨others, within, named⟩
  | leaf v arrays objects =>
    rintro ⟨fields, within, -⟩
    cases within with
    | here => exact objects fields rfl
    | item => exact arrays _ rfl
    | field => exact objects _ rfl

end Cloned

/-- `deepEqualIgnoringFunctionIdentity` finds a value equal to a separately built
copy of it and to its clone exactly if no `NaN` is in it, nor an own field named
`__proto__`; it is symmetric and transitive on all values; and so a client's
config rebuilt unchanged is recognised exactly if, its sub-clients aside, no
`NaN` is in it. -/
theorem unchanged_recognised (v : ConfigValue) :
    (v.Distinct →
      ((deepEqualIgnoringFunctionIdentity v v = true ∧
          ∀ fresh, deepEqualIgnoringFunctionIdentity v (deepCloneWithFunctions fresh v) = true) ↔
        ¬ Within (.num .nan) v ∧ ¬ v.Prototyped)) ∧
      (∀ other : ConfigValue, v.Distinct → other.Distinct → deepEqualIgnoringFunctionIdentity v other = true →
        deepEqualIgnoringFunctionIdentity other v = true) ∧
      (∀ b c : ConfigValue, deepEqualIgnoringFunctionIdentity v b = true →
        deepEqualIgnoringFunctionIdentity b c = true → deepEqualIgnoringFunctionIdentity v c = true) ∧
      ∀ fields : List (String × ConfigValue), (object fields).Distinct →
        (clientDataEqual fields fields = true ↔
          ¬ Within (.num .nan) (.object (fields.filter fun field => field.1 ≠ "subClients"))) := by
  refine ⟨fun distinct => ?_, fun _ => equal_symm, fun _ _ => equal_trans, fun fields distinct => ?_⟩
  · constructor
    · rintro ⟨self, clone⟩
      exact ⟨(equal_self distinct).mp self, plain_of_equal_clone distinct (clone 0)⟩
    · rintro ⟨clean, plain⟩
      have self := (equal_self distinct).mpr clean
      refine ⟨self, fun fresh => ?_⟩
      rwa [clone_eq plain]
  · refine equal_self fun others within => ?_
    cases within with
    | here => exact distinct.keys.sublist (List.filter_sublist.map _)
    | field member within => exact distinct others (.field (List.mem_of_mem_filter member) within)

/-- Metadata with a `NaN` in it is taken for changed each time it is rebuilt. -/
theorem nan_unrecognised :
    (object [("name", .str "crm"), ("metadata", .object [("threshold", .num .nan)])]).Distinct ∧
      clientDataEqual [("name", .str "crm"), ("metadata", .object [("threshold", .num .nan)])]
        [("name", .str "crm"), ("metadata", .object [("threshold", .num .nan)])] = false := by
  refine ⟨fun fields within => ?_, rfl⟩
  cases within with
  | here => decide
  | field member within =>
    simp only [List.mem_cons, List.not_mem_nil, or_false] at member
    rcases member with rfl | rfl
    · cases within
    · cases within with
      | here => decide
      | field member within =>
        rw [List.mem_singleton] at member
        subst member
        cases within

end ConfigValue

end Dianemo
