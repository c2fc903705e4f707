import Dianemo.Template

namespace Dianemo

/-- A client as declared, with the sub-clients below it: what names it, what it
is metered by, and whose credentials it uses. -/
inductive ClientTree where
  | node (name : String) (rateLimit : Option (List DeclaredRateLimit)) (authentication : Option Bool)
    (authOwnerName : Option String) (subClients : List ClientTree)

/-- The part of a config that says whose credentials it uses. `authentication` is
whether the property is truthy, where there is one. -/
structure AuthConfig where
  name : String
  authentication : Option Bool
  authOwnerName : Option String
  deriving DecidableEq

namespace AuthConfig

/-- `mergeChildParentClients`, as far as credentials go. -/
def merge (child parent : AuthConfig) : AuthConfig where
  name := parent.name ++ ":" ++ child.name
  authentication := child.authentication.or parent.authentication
  authOwnerName := if child.authentication = some true then none else some (parent.authOwnerName.getD parent.name)

/-- The client whose credential entry a client uses: `authOwnerName ?? name`. -/
def authOwner (config : AuthConfig) : String := config.authOwnerName.getD config.name

end AuthConfig

/-- What else the constructor of a client throws. -/
abbrev AuthRefusal := ClientData AuthConfig → List NamedRateLimitData → Option ConfigurationError

/-- The rules of a build: `othersEqual` compares what else two configs hold, and a
constructor refuses by `constructorError`. -/
def authRules (othersEqual : AuthConfig → AuthConfig → Bool)
    (constructorError : AuthRefusal) :
    ConfigRules AuthConfig where
  mergeRest := fun parent child => child.merge parent
  restEqual := fun a b => decide (a = b) && othersEqual a b
  constructorError := constructorError

namespace ClientTree

/-- What the client itself declares of credentials. -/
def config : ClientTree → AuthConfig
  | .node name _ authentication authOwnerName _ => ⟨name, authentication, authOwnerName⟩

mutual

/-- The tree as a build is handed it. -/
def create : ClientTree → CreateClientData AuthConfig
  | .node name rateLimit authentication authOwnerName subClients =>
    .mk ⟨name, rateLimit.map some, ⟨name, authentication, authOwnerName⟩⟩ (createAll subClients)

def createAll : List ClientTree → List (CreateClientData AuthConfig)
  | [] => []
  | tree :: rest => tree.create :: createAll rest

end

mutual

/-- The lines of descent in a tree, each from a client up to its root, in the
order a build walks the tree. -/
def lineages (ancestors : List AuthConfig) : ClientTree → List (List AuthConfig)
  | .node name _ authentication authOwnerName subClients =>
    (⟨name, authentication, authOwnerName⟩ :: ancestors) ::
      lineagesAll (⟨name, authentication, authOwnerName⟩ :: ancestors) subClients

def lineagesAll (ancestors : List AuthConfig) : List ClientTree → List (List AuthConfig)
  | [] => []
  | tree :: rest => tree.lineages ancestors ++ lineagesAll ancestors rest

end

end ClientTree

/-- The full name of the client at the head of a line. -/
def qualifiedName (lineage : List AuthConfig) : String := ":".intercalate (lineage.map AuthConfig.name).reverse

/-- The line from the nearest client on it that declares authentication, or from its root. -/
def nearestDeclaring : List AuthConfig → List AuthConfig
  | [] => []
  | [root] => [root]
  | client :: ancestors => if client.authentication = some true then client :: ancestors else
    nearestDeclaring ancestors

/-- The config a client is built with. -/
def mergedConfig : List AuthConfig → Option AuthConfig
  | [] => none
  | client :: ancestors =>
    match mergedConfig ancestors with
    | none => some client
    | some parent => some (client.merge parent)

section Lineages

variable {lineage ancestors : List AuthConfig} {client root : AuthConfig}

theorem qualifiedName_cons (below : ancestors ≠ []) :
    qualifiedName (client :: ancestors) = qualifiedName ancestors ++ ":" ++ client.name := by
  rw [qualifiedName, List.map_cons, List.reverse_cons, String.intercalate_append_of_ne_nil (by simpa using below)
    (List.cons_ne_nil _ _), String.intercalate_singleton, qualifiedName]

theorem nearestDeclaring_cons (below : ancestors ≠ []) :
    nearestDeclaring (client :: ancestors) =
      if client.authentication = some true then client :: ancestors else nearestDeclaring ancestors := by
  cases ancestors with
  | nil => exact absurd rfl below
  | cons => rfl

/-- The config of a line whose root names no owner of its credentials. -/
theorem mergedConfig_spec (rootless : root.authOwnerName = none) (lineage : List AuthConfig) :
    ∃ config, mergedConfig (lineage ++ [root]) = some config ∧ config.name = qualifiedName (lineage ++ [root]) ∧
      config.authOwner = qualifiedName (nearestDeclaring (lineage ++ [root])) := by
  induction lineage with
  | nil =>
    refine ⟨root, rfl, ?_, ?_⟩
    · simp [qualifiedName]
    · simp [qualifiedName, nearestDeclaring, AuthConfig.authOwner, rootless]
  | cons client lineage ih =>
    obtain ⟨parent, merged, named, owned⟩ := ih
    have below : lineage ++ [root] ≠ [] := by simp
    refine ⟨client.merge parent, ?_, ?_, ?_⟩
    · rw [List.cons_append, mergedConfig, merged]
    · rw [List.cons_append, qualifiedName_cons below, ← named]
      rfl
    · rw [List.cons_append, nearestDeclaring_cons below]
      by_cases declares : client.authentication = some true
      · rw [if_pos declares, qualifiedName_cons below, ← named]
        simp [AuthConfig.authOwner, AuthConfig.merge, declares]
      · rw [if_neg declares, ← owned]
        simp [AuthConfig.authOwner, AuthConfig.merge, declares]

end Lineages

section Walked

variable {othersEqual : AuthConfig → AuthConfig → Bool}
  {constructorError : AuthRefusal}

mutual

/-- A build walks a tree line by line, each client with the config of its line. -/
theorem ClientTree.declarations_lineages {parent : Option (ClientData AuthConfig)} {ancestors : List AuthConfig}
    (under : parent.map ClientData.rest = mergedConfig ancestors)
    (named : ∀ above ∈ parent, above.rest.name = above.name) :
    ∀ tree : ClientTree,
      (tree.create.declarations (authRules othersEqual constructorError) parent).map (fun d => some d.client.rest) =
          (tree.lineages ancestors).map mergedConfig ∧
        ∀ d ∈ tree.create.declarations (authRules othersEqual constructorError) parent,
          d.client.rest.name = d.client.name
  | .node name rateLimit authentication authOwnerName subClients => by
    cases parent with
    | none =>
      have merged : (some (⟨name, rateLimit.map some, ⟨name, authentication, authOwnerName⟩⟩ :
          ClientData AuthConfig)).map ClientData.rest =
            mergedConfig (⟨name, authentication, authOwnerName⟩ :: ancestors) := by
        rw [mergedConfig, ← under]
        rfl
      have top : ∀ above ∈ some
          (⟨name, rateLimit.map some, ⟨name, authentication, authOwnerName⟩⟩ : ClientData AuthConfig),
          above.rest.name = above.name := by
        rintro _ ⟨⟩
        rfl
      obtain ⟨below, names⟩ := ClientTree.declarations_lineagesAll merged top subClients
      rw [ClientTree.create, CreateClientData.declarations, ClientTree.lineages, List.map_cons, List.map_cons]
      refine ⟨List.cons_eq_cons.mpr ⟨merged, below⟩, fun d member => ?_⟩
      rcases List.mem_cons.mp member with rfl | deeper
      · rfl
      · exact names d deeper
    | some above =>
      have merged : (some (mergeChildParentClients (authRules othersEqual constructorError)
          ⟨name, rateLimit.map some, ⟨name, authentication, authOwnerName⟩⟩ above)).map ClientData.rest =
          mergedConfig (⟨name, authentication, authOwnerName⟩ :: ancestors) := by
        rw [mergedConfig, ← under]
        rfl
      have joined : (mergeChildParentClients (authRules othersEqual constructorError)
            ⟨name, rateLimit.map some, ⟨name, authentication, authOwnerName⟩⟩ above).rest.name =
          above.name ++ ":" ++ name := by
        rw [← named above rfl]
        rfl
      have top : ∀ here ∈ some (mergeChildParentClients (authRules othersEqual constructorError)
          ⟨name, rateLimit.map some, ⟨name, authentication, authOwnerName⟩⟩ above), here.rest.name = here.name := by
        rintro _ ⟨⟩
        exact joined
      obtain ⟨below, names⟩ := ClientTree.declarations_lineagesAll merged top subClients
      rw [ClientTree.create, CreateClientData.declarations, ClientTree.lineages, List.map_cons, List.map_cons]
      refine ⟨List.cons_eq_cons.mpr ⟨merged, below⟩, fun d member => ?_⟩
      rcases List.mem_cons.mp member with rfl | deeper
      · exact joined
      · exact names d deeper

theorem ClientTree.declarations_lineagesAll {parent : Option (ClientData AuthConfig)} {ancestors : List AuthConfig}
    (under : parent.map ClientData.rest = mergedConfig ancestors)
    (named : ∀ above ∈ parent, above.rest.name = above.name) :
    ∀ trees : List ClientTree,
      (listDeclarations (authRules othersEqual constructorError) parent (ClientTree.createAll trees)).map
            (fun d => some d.client.rest) = (ClientTree.lineagesAll ancestors trees).map mergedConfig ∧
        ∀ d ∈ listDeclarations (authRules othersEqual constructorError) parent (ClientTree.createAll trees),
          d.client.rest.name = d.client.name
  | [] => ⟨rfl, fun _ absent => absurd absent List.not_mem_nil⟩
  | tree :: rest => by
    obtain ⟨first, names⟩ := ClientTree.declarations_lineages under named tree
    obtain ⟨others, names'⟩ := ClientTree.declarations_lineagesAll under named rest
    rw [ClientTree.createAll, listDeclarations, ClientTree.lineagesAll, List.map_append,
      List.map_append, first, others]
    refine ⟨rfl, fun d member => ?_⟩
    rcases List.mem_append.mp member with here | later
    · exact names d here
    · exact names' d later

end

mutual

/-- Every line in a tree ends at its root. -/
theorem ClientTree.mem_lineages {lineage : List AuthConfig} :
    ∀ {tree : ClientTree} {ancestors : List AuthConfig}, lineage ∈ tree.lineages ancestors →
      ∃ below, lineage = below ++ tree.config :: ancestors
  | .node name rateLimit authentication authOwnerName subClients, ancestors, member => by
    rw [ClientTree.lineages] at member
    rcases List.mem_cons.mp member with rfl | deeper
    · exact ⟨[], rfl⟩
    · obtain ⟨tree, -, below, rfl⟩ := ClientTree.mem_lineagesAll deeper
      exact ⟨below ++ [tree.config], by rw [List.append_assoc]; rfl⟩

theorem ClientTree.mem_lineagesAll {lineage : List AuthConfig} :
    ∀ {trees : List ClientTree} {ancestors : List AuthConfig}, lineage ∈ ClientTree.lineagesAll ancestors trees →
      ∃ tree ∈ trees, ∃ below, lineage = below ++ tree.config :: ancestors
  | [], _, member => absurd member List.not_mem_nil
  | tree :: rest, ancestors, member => by
    rw [ClientTree.lineagesAll] at member
    rcases List.mem_append.mp member with here | later
    · obtain ⟨below, same⟩ := ClientTree.mem_lineages here
      exact ⟨tree, List.mem_cons_self, below, same⟩
    · obtain ⟨other, among, below, same⟩ := ClientTree.mem_lineagesAll later
      exact ⟨other, List.mem_cons_of_mem _ among, below, same⟩

end

/-- A name a build has a client under once it is done: one it swaps in, or one it
leaves in place. -/
def BuiltOrKept (rules : ConfigRules AuthConfig) (registry : Registry AuthConfig)
    (clients : List (CreateClientData AuthConfig)) (replacements : List (RegisteredClient AuthConfig))
    (name : String) : Prop :=
  (∃ next ∈ replacements, next.source.name = name) ∨
    ∃ d ∈ listDeclarations rules none clients, keepsExisting rules registry d.client = true ∧ d.client.name = name

theorem createAll_rootName {forest : List ClientTree} (named : ∀ tree ∈ forest, tree.config.name ≠ "") :
    ∀ client ∈ ClientTree.createAll forest, client.rootName ≠ "" := by
  induction forest with
  | nil => exact fun _ absent => absurd absent List.not_mem_nil
  | cons tree rest ih =>
    intro client member
    rw [ClientTree.createAll] at member
    rcases List.mem_cons.mp member with rfl | later
    · have here := named tree List.mem_cons_self
      cases tree
      exact here
    · exact ih (fun other among => named other (List.mem_cons_of_mem _ among)) client later

/-- The client that stands for a declared one after a build: the one registered
where the two are equal, else the one built. -/
def clientLeft (rules : ConfigRules AuthConfig) (registry : Registry AuthConfig)
    (declared : ClientData AuthConfig) : ClientData AuthConfig :=
  match registry declared.name with
  | none => declared
  | some existing => if clientDataEqual rules existing.source declared then existing.source else declared

/-- A client left in place is as its declaration has it. -/
theorem clientLeft_spec (registry : Registry AuthConfig) (declared : ClientData AuthConfig) :
    (clientLeft (authRules othersEqual constructorError) registry declared).name = declared.name ∧
      (clientLeft (authRules othersEqual constructorError) registry declared).rest = declared.rest := by
  rw [clientLeft]
  cases registry declared.name with
  | none => exact ⟨rfl, rfl⟩
  | some existing =>
    by_cases equal : clientDataEqual (authRules othersEqual constructorError) existing.source declared = true
    · simp only [equal, if_true]
      simp only [clientDataEqual, authRules, Bool.and_eq_true, decide_eq_true_eq] at equal
      exact ⟨equal.1.1, equal.1.2.1⟩
    · simp only [equal]
      exact ⟨rfl, rfl⟩

/-- Whose credentials each client of a forest uses. -/
theorem declarations_authOwner {forest : List ClientTree}
    (ownerless : ∀ tree ∈ forest, tree.config.authOwnerName = none) :
    (listDeclarations (authRules othersEqual constructorError) none (ClientTree.createAll forest)).map
        (fun d => (d.client.name, d.client.rest.authOwner)) =
      (ClientTree.lineagesAll [] forest).map fun lineage =>
        (qualifiedName lineage, qualifiedName (nearestDeclaring lineage)) := by
  have under : (none : Option (ClientData AuthConfig)).map ClientData.rest = mergedConfig [] := rfl
  have lines : (listDeclarations (authRules othersEqual constructorError) none (ClientTree.createAll forest)).map
      (fun d => some d.client.rest) = _ ∧ _ :=
    ClientTree.declarations_lineagesAll under (fun _ absent => nomatch absent) forest
  obtain ⟨walked, names⟩ := lines
  have read : ∀ lineage ∈ ClientTree.lineagesAll [] forest,
      (mergedConfig lineage).map (fun config => (config.name, config.authOwner)) =
        some (qualifiedName lineage, qualifiedName (nearestDeclaring lineage)) := by
    intro lineage member
    obtain ⟨tree, among, below, rfl⟩ := ClientTree.mem_lineagesAll member
    obtain ⟨config, merged, name, owner⟩ := mergedConfig_spec (ownerless tree among) below
    rw [merged, Option.map_some, name, owner]
  have both := congrArg (List.map (Option.map fun config : AuthConfig => (config.name, config.authOwner))) walked
  rw [List.map_map, List.map_map] at both
  refine List.map_injective_iff.mpr (Option.some_injective _) ?_
  rw [List.map_map, List.map_map]
  calc (listDeclarations (authRules othersEqual constructorError) none (ClientTree.createAll forest)).map
        (some ∘ fun d => (d.client.name, d.client.rest.authOwner))
      = (listDeclarations (authRules othersEqual constructorError) none (ClientTree.createAll forest)).map
        (Option.map (fun config : AuthConfig => (config.name, config.authOwner)) ∘ fun d =>
          some d.client.rest) := by
        refine List.map_congr_left fun d member => ?_
        simp only [Function.comp_apply, Option.map_some, names d member]
    _ = (ClientTree.lineagesAll [] forest).map
        (Option.map (fun config : AuthConfig => (config.name, config.authOwner)) ∘ mergedConfig) := both
    _ = _ := List.map_congr_left read

/-- A build has clients under the names `collectClientNames` gives and under no
others, and files each one's credentials under its nearest self or ancestor that
declares authentication, else under its root. -/
theorem subClients_consistent (othersEqual : AuthConfig → AuthConfig → Bool)
    (constructorError : AuthRefusal) (forest : List ClientTree)
    (named : ∀ tree ∈ forest, tree.config.name ≠ "")
    (ownerless : ∀ tree ∈ forest, tree.config.authOwnerName = none)
    (registry : Registry AuthConfig) (retiring : List String) (replacements : List (RegisteredClient AuthConfig))
    (prepared : prepareClients (authRules othersEqual constructorError) registry (ClientTree.createAll forest) retiring =
      .ok replacements) :
    (∀ name, name ∈ collectClientNames (ClientTree.createAll forest) ↔
        BuiltOrKept (authRules othersEqual constructorError) registry (ClientTree.createAll forest) replacements name) ∧
      (∀ next ∈ replacements,
        ∃ d ∈ listDeclarations (authRules othersEqual constructorError) none (ClientTree.createAll forest),
          next.source = clientLeft (authRules othersEqual constructorError) registry d.client) ∧
      (listDeclarations (authRules othersEqual constructorError) none (ClientTree.createAll forest)).map
          (fun d => ((clientLeft (authRules othersEqual constructorError) registry d.client).name,
            (clientLeft (authRules othersEqual constructorError) registry d.client).rest.authOwner)) =
        (ClientTree.lineagesAll [] forest).map fun lineage =>
          (qualifiedName lineage, qualifiedName (nearestDeclaring lineage)) := by
  obtain ⟨listed, -⟩ := walkClients_ok prepared
  refine ⟨fun name => ?_, fun next member => ?_, ?_⟩
  · have under : PrefixOf (none : Option String) (none : Option (ClientData AuthConfig)) := rfl
    have names :=
      listDeclarations_names (authRules othersEqual constructorError) under (ClientTree.createAll forest)
      fun _ => createAll_rootName named
    rw [collectClientNames, List.mem_eraseDups, ← names, BuiltOrKept, listed]
    simp only [List.mem_map, List.mem_filter]
    constructor
    · rintro ⟨d, declared, rfl⟩
      cases kept : keepsExisting (authRules othersEqual constructorError) registry d.client with
      | true => exact .inr ⟨d, declared, kept, rfl⟩
      | false => exact .inl ⟨_, ⟨d.client, ⟨⟨d, declared, rfl⟩, by rw [kept]; rfl⟩, rfl⟩, rfl⟩
    · rintro (⟨next, ⟨client, ⟨⟨d, declared, rfl⟩, -⟩, rfl⟩, rfl⟩ | ⟨d, declared, -, rfl⟩)
      · exact ⟨d, declared, rfl⟩
      · exact ⟨d, declared, rfl⟩
  · rw [listed] at member
    simp only [List.mem_map, List.mem_filter] at member
    obtain ⟨client, ⟨⟨d, declared, rfl⟩, fresh⟩, rfl⟩ := member
    refine ⟨d, declared, ?_⟩
    rw [keepsExisting] at fresh
    rw [clientLeft]
    cases registered : registry d.client.name with
    | none => rfl
    | some existing =>
      simp only [registered] at fresh
      cases equal : clientDataEqual (authRules othersEqual constructorError) existing.source d.client with
      | true =>
        rw [equal] at fresh
        cases fresh
      | false =>
        simp only [equal]
        rfl
  · have owners : (listDeclarations (authRules othersEqual constructorError) none (ClientTree.createAll forest)).map
        (fun d => (d.client.name, d.client.rest.authOwner)) = _ := declarations_authOwner ownerless
    rw [← owners]
    refine List.map_congr_left fun d _ => ?_
    have left : (clientLeft (authRules othersEqual constructorError) registry d.client).name = _ ∧ _ :=
      clientLeft_spec registry d.client
    obtain ⟨name, rest⟩ := left
    rw [name, rest]

end Walked

/-- A declared pair of sub-clients, one with credentials of its own. -/
theorem subClients_consistent_tenants :
    (listDeclarations (authRules (fun _ _ => true) fun _ _ => none) none (ClientTree.createAll
        [.node "acme" none (some true) none
          [.node "users" none none none [.node "admin" none none none []], .node "files" none (some true) none []]])).map
        (fun d => ((clientLeft (authRules (fun _ _ => true) fun _ _ => none) (fun _ => none) d.client).name,
          (clientLeft (authRules (fun _ _ => true) fun _ _ => none) (fun _ => none) d.client).rest.authOwner)) =
      [("acme", "acme"), ("acme:users", "acme"), ("acme:users:admin", "acme"), ("acme:files", "acme:files")] :=
  (subClients_consistent (fun _ _ => true) (fun _ _ => none)
    [.node "acme" none (some true) none
      [.node "users" none none none [.node "admin" none none none []], .node "files" none (some true) none []]]
    (by simp [ClientTree.config]) (by simp [ClientTree.config]) (fun _ => none) [] _ rfl).2.2

/-- Below a root named by the empty string the names collected are not those
built, and a root that names an owner of its credentials is filed under it. -/
theorem subClients_drift :
    (∃ replacements, prepareClients (authRules (fun _ _ => true) fun _ _ => none) (fun _ => none)
        (ClientTree.createAll [.node "" none none none [.node "child" none none none []]]) [] = .ok replacements ∧
      replacements.map (fun next => next.source.name) = ["", ":child"] ∧
      collectClientNames (ClientTree.createAll [.node "" none none none [.node "child" none none none []]]) =
        ["", "child"]) ∧
      ∃ replacements, prepareClients (authRules (fun _ _ => true) fun _ _ => none) (fun _ => none)
          (ClientTree.createAll [.node "acme" none none (some "other") []]) [] = .ok replacements ∧
        replacements.map (fun next => (next.source.name, next.source.rest.authOwner)) = [("acme", "other")] := by
  refine ⟨⟨_, rfl, ?_, ?_⟩, _, rfl, ?_⟩
  · decide
  · decide
  · decide

end Dianemo
