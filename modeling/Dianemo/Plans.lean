import Dianemo.SubClients
import Dianemo.Renaming

namespace Dianemo

/-- `isSharedLimitOnly`, of a list as declared. -/
def Declared.isSharedLimitOnly (config : List DeclaredRateLimit) : Bool :=
  config.length = 1 && config[0]?.any fun limit => limit.data.type = "sharedLimit"

/-- `describeShapeMismatch`. -/
def describeShapeMismatch (existing override : List DeclaredRateLimit) : Option String :=
  let existingIsShared := Declared.isSharedLimitOnly existing
  if existingIsShared = Declared.isSharedLimitOnly override then none
  else if existingIsShared then
    some "declares budgets of its own where the template default shares another client's"
  else some "shares another client's budget where the template default declares its own"

/-- `ownEntry` of a map from paths to limits. -/
abbrev PathMap := String → Option (List DeclaredRateLimit)

/-- What a client is metered by: its own list, else its parent's, else `noLimit`. -/
def effectiveList (declared inherited : Option (List DeclaredRateLimit)) : List DeclaredRateLimit :=
  (declared.or inherited).getD [⟨none, .noLimit⟩]

/-- The path of a sub-client. -/
def subPath (path name : String) : String := if path = "" then name else path ++ ":" ++ name

/-- The list `applyPlan` puts in the place of `existing`, if it puts one. -/
def planEntry (rateLimits : PathMap) (path : String) (existing : List DeclaredRateLimit) :
    Option (List DeclaredRateLimit) :=
  match rateLimits path with
  | none => none
  | some limit => if describeShapeMismatch existing limit = none then some limit else none

/-- The list `applyOverrides` puts in the place of `existing`, if it puts one. -/
def overrideEntry (overrides : PathMap) (path : String) (existing : List DeclaredRateLimit) :
    Option (List DeclaredRateLimit) :=
  match overrides path with
  | none => none
  | some override =>
    if describeShapeMismatch existing override = none then
      some ((normalizeRateLimitFrom override (some (normalizeRateLimit existing))).map NamedRateLimitData.declared)
    else none

namespace ClientTree

def name : ClientTree → String
  | .node name _ _ _ _ => name

section Walk

variable (entry : String → List DeclaredRateLimit → Option (List DeclaredRateLimit))

mutual

/-- The walk of `applyPlan` and of `applyOverrides`, which differ in the list they
put in a client's place. -/
def retune (path : String) (inherited : Option (List DeclaredRateLimit)) : ClientTree → ClientTree
  | .node name rateLimit authentication authOwnerName subClients =>
    let existing := effectiveList rateLimit inherited
    match entry path existing with
    | none => .node name rateLimit authentication authOwnerName (retuneAll path (some existing) subClients)
    | some limit => .node name (some limit) authentication authOwnerName (retuneAll path (some limit) subClients)

/-- The walk of the sub-clients of the client at `path`. -/
def retuneAll (path : String) (inherited : Option (List DeclaredRateLimit)) : List ClientTree → List ClientTree
  | [] => []
  | tree :: rest => tree.retune (subPath path tree.name) inherited :: retuneAll path inherited rest

end

end Walk

/-- A client of a tree: its path, the limits it declares and those it is metered by. -/
structure Place where
  path : String
  declared : Option (List DeclaredRateLimit)
  effective : List DeclaredRateLimit

mutual

/-- The clients of a tree, each before the clients below it. -/
def places (path : String) (inherited : Option (List DeclaredRateLimit)) : ClientTree → List Place
  | .node _ rateLimit _ _ subClients =>
    ⟨path, rateLimit, effectiveList rateLimit inherited⟩ ::
      placesAll path (some (effectiveList rateLimit inherited)) subClients

def placesAll (path : String) (inherited : Option (List DeclaredRateLimit)) : List ClientTree → List Place
  | [] => []
  | tree :: rest => tree.places (subPath path tree.name) inherited ++ placesAll path inherited rest

end

end ClientTree

/-- `applyPlan`. -/
def applyPlan (rateLimits : PathMap) (clients : List ClientTree) : List ClientTree :=
  clients.map fun root => root.retune (planEntry rateLimits) "" none

/-- `applyOverrides`, of every root. -/
def applyOverrides (overrides : PathMap) (clients : List ClientTree) : List ClientTree :=
  clients.map fun root => root.retune (overrideEntry overrides) "" none

/-- The clients of a forest. -/
def places (clients : List ClientTree) : List ClientTree.Place := clients.flatMap fun root => root.places "" none

section Shapes

variable {existing other override limit : List DeclaredRateLimit} {path : String} {map : PathMap}

theorem describeShapeMismatch_none : describeShapeMismatch existing override = none ↔
    Declared.isSharedLimitOnly existing = Declared.isSharedLimitOnly override := by
  rw [describeShapeMismatch]
  by_cases same : Declared.isSharedLimitOnly existing = Declared.isSharedLimitOnly override
  · simp only [same, if_true]
  · simp only [same, if_false]
    split <;> simp

/-- A list is refused for its shape alone. -/
theorem describeShapeMismatch_congr
    (same : Declared.isSharedLimitOnly existing = Declared.isSharedLimitOnly other) :
    describeShapeMismatch existing override = describeShapeMismatch other override := by
  rw [describeShapeMismatch, describeShapeMismatch, same]

/-- Naming a list leaves its shape. -/
theorem isSharedLimitOnly_normalize (config : List DeclaredRateLimit)
    (previous : Option (List NamedRateLimitData)) :
    Declared.isSharedLimitOnly ((normalizeRateLimitFrom config previous).map NamedRateLimitData.declared) =
      Declared.isSharedLimitOnly config := by
  rw [normalizeRateLimitFrom, Declared.isSharedLimitOnly, Declared.isSharedLimitOnly, List.map_map, List.length_map,
    List.getElem?_map, Option.any_map]
  rfl

/-- What a walk puts in a client's place has the shape of what was there. -/
def KeepsShape (entry : String → List DeclaredRateLimit → Option (List DeclaredRateLimit)) : Prop :=
  ∀ path existing, ∀ limit ∈ entry path existing,
    Declared.isSharedLimitOnly limit = Declared.isSharedLimitOnly existing

/-- A walk leaves a client alone where the map has no list of its shape. -/
def Refuses (map : PathMap) (entry : String → List DeclaredRateLimit → Option (List DeclaredRateLimit)) : Prop :=
  ∀ path existing, (∀ limit ∈ map path, describeShapeMismatch existing limit ≠ none) → entry path existing = none

theorem planEntry_keepsShape (map : PathMap) : KeepsShape (planEntry map) := by
  intro path existing limit placed
  rw [planEntry] at placed
  cases declared : map path with
  | none => simp [declared] at placed
  | some entry =>
    simp only [declared, Option.mem_def, Option.ite_none_right_eq_some, Option.some.injEq] at placed
    rw [← placed.2]
    exact (describeShapeMismatch_none.mp placed.1).symm

theorem overrideEntry_keepsShape (map : PathMap) : KeepsShape (overrideEntry map) := by
  intro path existing limit placed
  rw [overrideEntry] at placed
  cases declared : map path with
  | none => simp [declared] at placed
  | some entry =>
    simp only [declared, Option.mem_def, Option.ite_none_right_eq_some, Option.some.injEq] at placed
    rw [← placed.2, isSharedLimitOnly_normalize]
    exact (describeShapeMismatch_none.mp placed.1).symm

theorem planEntry_refuses (map : PathMap) : Refuses map (planEntry map) := by
  intro path existing refused
  rw [planEntry]
  cases declared : map path with
  | none => rfl
  | some limit => exact if_neg (refused limit declared)

theorem overrideEntry_refuses (map : PathMap) : Refuses map (overrideEntry map) := by
  intro path existing refused
  rw [overrideEntry]
  cases declared : map path with
  | none => rfl
  | some limit => exact if_neg (refused limit declared)

end Shapes

section Walks

variable {entry : String → List DeclaredRateLimit → Option (List DeclaredRateLimit)} {map : PathMap}
  {before after : Option (List DeclaredRateLimit)}

/-- A client before a walk and after it: its kind is the same, and so is what it
declares where the walk's list for it is refused. -/
structure Retuned (map : PathMap) (before after : ClientTree.Place) : Prop where
  path : after.path = before.path
  kind : Declared.isSharedLimitOnly after.effective = Declared.isSharedLimitOnly before.effective
  refused : (∀ limit ∈ map before.path, describeShapeMismatch before.effective limit ≠ none) →
    after.declared = before.declared

/-- Two parents of one kind. -/
def SameKind (before after : Option (List DeclaredRateLimit)) : Prop :=
  Declared.isSharedLimitOnly (effectiveList none after) = Declared.isSharedLimitOnly (effectiveList none before)

theorem SameKind.effective (same : SameKind before after) (declared : Option (List DeclaredRateLimit)) :
    Declared.isSharedLimitOnly (effectiveList declared after) =
      Declared.isSharedLimitOnly (effectiveList declared before) := by
  cases declared with
  | none => exact same
  | some list => rfl

theorem ClientTree.retune_name (path : String) (inherited : Option (List DeclaredRateLimit)) (tree : ClientTree) :
    (tree.retune entry path inherited).name = tree.name := by
  cases tree with
  | node name rateLimit authentication authOwnerName subClients =>
    rw [ClientTree.retune]
    cases entry path (effectiveList rateLimit inherited) <;> rfl

mutual

/-- The inherited list a walk hands down differs from the one before it, and never in kind. -/
theorem ClientTree.retune_places (keeps : KeepsShape entry) (refuses : Refuses map entry)
    {before after : Option (List DeclaredRateLimit)} {path : String} (same : SameKind before after) :
    ∀ tree : ClientTree,
      List.Forall₂ (Retuned map) (tree.places path before) ((tree.retune entry path after).places path after)
  | .node name rateLimit authentication authOwnerName subClients => by
    have kind : Declared.isSharedLimitOnly (effectiveList rateLimit after) =
        Declared.isSharedLimitOnly (effectiveList rateLimit before) := same.effective rateLimit
    rw [ClientTree.retune]
    cases placed : entry path (effectiveList rateLimit after) with
    | none =>
      simp only [ClientTree.places]
      have below : SameKind (some (effectiveList rateLimit before)) (some (effectiveList rateLimit after)) := kind
      exact .cons ⟨rfl, kind, fun _ => rfl⟩ (ClientTree.retuneAll_places keeps refuses below subClients)
    | some limit =>
      simp only [ClientTree.places]
      have shape : Declared.isSharedLimitOnly limit = Declared.isSharedLimitOnly (effectiveList rateLimit before) :=
        (keeps _ _ limit placed).trans kind
      have below : SameKind (some (effectiveList rateLimit before)) (some limit) := shape
      refine .cons ⟨rfl, shape, fun refused => ?_⟩ (ClientTree.retuneAll_places keeps refuses below subClients)
      have none_ : entry path (effectiveList rateLimit after) = none := by
        refine refuses _ _ fun other listed => ?_
        rw [describeShapeMismatch_congr kind]
        exact refused other listed
      rw [placed] at none_
      cases none_

theorem ClientTree.retuneAll_places (keeps : KeepsShape entry) (refuses : Refuses map entry)
    {before after : Option (List DeclaredRateLimit)} {path : String} (same : SameKind before after) :
    ∀ trees : List ClientTree, List.Forall₂ (Retuned map) (ClientTree.placesAll path before trees)
      (ClientTree.placesAll path after (ClientTree.retuneAll entry path after trees))
  | [] => .nil
  | tree :: rest => by
    have first : List.Forall₂ (Retuned map) (tree.places (subPath path tree.name) before) _ :=
      ClientTree.retune_places keeps refuses same tree
    have others : List.Forall₂ (Retuned map) (ClientTree.placesAll path before rest) _ :=
      ClientTree.retuneAll_places keeps refuses same rest
    rw [ClientTree.retuneAll, ClientTree.placesAll, ClientTree.placesAll, ClientTree.retune_name]
    exact List.rel_append first others

end

/-- A walk over a forest. -/
theorem retuned_places (keeps : KeepsShape entry) (refuses : Refuses map entry) (clients : List ClientTree) :
    List.Forall₂ (Retuned map) (places clients) (places (clients.map fun root => root.retune entry "" none)) := by
  induction clients with
  | nil => exact .nil
  | cons root rest ih =>
    have same : SameKind none none := rfl
    rw [List.map_cons, places, places, List.flatMap_cons, List.flatMap_cons]
    exact List.rel_append (root.retune_places keeps refuses same) ih

/-- Two walks, one after the other. -/
theorem retuned_twice {map' : PathMap} {first second third : List ClientTree.Place}
    (walked : List.Forall₂ (Retuned map) first second) (again : List.Forall₂ (Retuned map') second third) :
    List.Forall₂ (fun before after => after.path = before.path ∧
        Declared.isSharedLimitOnly after.effective = Declared.isSharedLimitOnly before.effective)
      first third := by
  induction walked generalizing third with
  | nil =>
    cases again
    exact .nil
  | cons here _ ih =>
    cases again with
    | cons here' rest => exact .cons ⟨here'.path.trans here.path, here'.kind.trans here.kind⟩ (ih rest)

/-- A plan and the overrides on top of it leave every client the kind it was, and
leave what it declares where the list for it is refused. -/
theorem plans_keep_kind (rateLimits overrides : PathMap) (clients : List ClientTree) :
    List.Forall₂ (fun before after => after.path = before.path ∧
        Declared.isSharedLimitOnly after.effective = Declared.isSharedLimitOnly before.effective)
        (places clients) (places (applyOverrides overrides (applyPlan rateLimits clients))) ∧
      List.Forall₂ (Retuned rateLimits) (places clients) (places (applyPlan rateLimits clients)) ∧
      List.Forall₂ (Retuned overrides) (places (applyPlan rateLimits clients))
        (places (applyOverrides overrides (applyPlan rateLimits clients))) := by
  have planned : List.Forall₂ (Retuned rateLimits) (places clients) (places (applyPlan rateLimits clients)) :=
    retuned_places (planEntry_keepsShape rateLimits) (planEntry_refuses rateLimits) clients
  have overridden : List.Forall₂ (Retuned overrides) (places (applyPlan rateLimits clients))
      (places (applyOverrides overrides (applyPlan rateLimits clients))) :=
    retuned_places (overrideEntry_keepsShape overrides) (overrideEntry_refuses overrides)
      (applyPlan rateLimits clients)
  exact ⟨retuned_twice planned overridden, planned, overridden⟩

end Walks

end Dianemo
