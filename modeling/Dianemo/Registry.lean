import Dianemo.Election

namespace Dianemo

open JsNumber

/-- A declared limit, without its name. -/
inductive RateLimitData where
  | requestLimit (maxTokens tokensToAdd interval : JsNumber) (maxDebt : Option JsNumber)
  | concurrencyLimit (maxConcurrency : JsNumber)
  | sharedLimit (clientName : String)
  | noLimit
  | unrecognised (type : String)

structure DeclaredRateLimit where
  name : Option String
  data : RateLimitData

structure NamedRateLimitData where
  name : String
  data : RateLimitData

/-- A `ConfigurationError`: its code and the client it names. -/
structure ConfigurationError where
  code : String
  clientName : String
  deriving DecidableEq

/-- What a `rateLimit` property holds: `none` for `null`, `undefined` and anything that is no list. -/
abbrev RateLimitField := Option (List DeclaredRateLimit)

/-- A client's config. `rateLimit` is `none` where the property is absent; `rest` is
everything the build only merges and compares. -/
structure ClientData (δ : Type) where
  name : String
  rateLimit : Option RateLimitField
  rest : δ

/-- A declared client and its sub-clients. -/
inductive CreateClientData (δ : Type) where
  | mk (client : ClientData δ) (subClients : List (CreateClientData δ))

/-- What the build takes as given of the rest of a config: how a child's is merged
into its parent's, when two are deep-equal, and what else a constructor throws. -/
structure ConfigRules (δ : Type) where
  mergeRest : δ → δ → δ
  restEqual : δ → δ → Bool
  constructorError : ClientData δ → List NamedRateLimitData → Option ConfigurationError

def defaultRateLimitName : String := "default"

/-- `normalizeRateLimit`, with no list to inherit a name from. -/
def normalizeRateLimit (config : List DeclaredRateLimit) : List NamedRateLimitData :=
  config.map fun limit => ⟨limit.name.getD defaultRateLimitName, limit.data⟩

/-- `RATE_LIMIT_NAME.test`. -/
def rateLimitNameTest (name : String) : Bool :=
  name.toList.all (fun c => ('a' ≤ c && c ≤ 'z') || ('0' ≤ c && c ≤ '9') || c = '_') &&
    1 ≤ name.length && name.length ≤ 64

def RateLimitData.isShared : RateLimitData → Bool
  | .sharedLimit _ => true
  | _ => false

/-- `x > 0` for a finite `x`. -/
def JsNumber.usable (x : JsNumber) : Bool := x.isFinite && decide (0 < x)

/-- The code `assertUsableRateLimit` throws with, if it throws. -/
def RateLimitData.problem : RateLimitData → Option String
  | .requestLimit maxTokens tokensToAdd interval maxDebt =>
    if tokensToAdd.usable && interval.usable && maxTokens.usable &&
        maxDebt.all (fun debt => debt.isFinite && decide (0 ≤ debt)) then none
    else some "invalid_rate_limit"
  | .concurrencyLimit maxConcurrency => if maxConcurrency.usable then none else some "invalid_rate_limit"
  | .sharedLimit clientName => if clientName ≠ "" then none else some "invalid_rate_limit"
  | .noLimit => none
  | .unrecognised _ => some "unknown_rate_limit_type"

/-- The walk of `assertUsableRateLimits` over its entries, `seen` the names before. -/
def entriesProblem (seen : List String) : List NamedRateLimitData → Option String
  | [] => none
  | limit :: rest =>
    if ¬ rateLimitNameTest limit.name then some "invalid_rate_limit_name"
    else if limit.name ∈ seen then some "invalid_rate_limit"
    else limit.data.problem.or (entriesProblem (limit.name :: seen) rest)

/-- The code `assertUsableRateLimits` throws with, if it throws. -/
def rateLimitsProblem (config : List NamedRateLimitData) : Option String :=
  let shared := config.filter fun limit => limit.data.isShared
  if config.length = 0 then some "invalid_rate_limit"
  else if 1 < shared.length then some "shared_limit_not_alone"
  else if 0 < shared.length ∧ 1 < config.length then some "shared_limit_not_alone"
  else entriesProblem [] config

/-- The owner a config borrows its whole queue from: `isSharedLimitOnly`, and the name in it. -/
def sharedOwner : List NamedRateLimitData → Option String
  | [⟨_, .sharedLimit clientName⟩] => some clientName
  | _ => none

/-- A registered client: what it was built from, and its limits. -/
structure RegisteredClient (δ : Type) where
  source : ClientData δ
  rateLimit : List NamedRateLimitData

/-- `this.clients`. -/
abbrev Registry (δ : Type) := String → Option (RegisteredClient δ)

/-- `mergeChildParentClients`: a child inherits what it does not declare. -/
def mergeChildParentClients {δ : Type} (rules : ConfigRules δ) (child parent : ClientData δ) : ClientData δ where
  name := parent.name ++ ":" ++ child.name
  rateLimit := child.rateLimit.or parent.rateLimit
  rest := rules.mergeRest parent.rest child.rest

/-- A place of the walk: the name as declared, whether a parent's, and the config as built. -/
structure Declaration (δ : Type) where
  declaredName : String
  isSubClient : Bool
  client : ClientData δ

mutual

/-- The order in which `walk` comes by a client and those below it. -/
def CreateClientData.declarations {δ : Type} (rules : ConfigRules δ) (parent : Option (ClientData δ)) :
    CreateClientData δ → List (Declaration δ)
  | .mk declared subClients =>
    let client := match parent with
      | none => declared
      | some parent => mergeChildParentClients rules declared parent
    ⟨declared.name, parent.isSome, client⟩ :: listDeclarations rules (some client) subClients

def listDeclarations {δ : Type} (rules : ConfigRules δ) (parent : Option (ClientData δ)) :
    List (CreateClientData δ) → List (Declaration δ)
  | [] => []
  | head :: rest => head.declarations rules parent ++ listDeclarations rules parent rest

end

/-- `/\s/`. -/
def isSpace (c : Char) : Bool :=
  c.toNat ∈ [9, 10, 11, 12, 13, 32, 160, 5760, 8232, 8233, 8239, 8287, 12288, 65279] ||
    (8192 ≤ c.toNat && c.toNat ≤ 8202)

/-- `assertNameSegment`. -/
def nameSegment (value : String) : Bool :=
  value ≠ "" && value.toList.all fun c => c ≠ ':' && !isSpace c

/-- `===` on numbers. -/
def JsNumber.strictEqual (a b : JsNumber) : Bool := a ≠ .nan && a = b

def RateLimitData.deepEqual : RateLimitData → RateLimitData → Bool
  | .requestLimit a b c d, .requestLimit a' b' c' d' =>
    a.strictEqual a' && b.strictEqual b' && c.strictEqual c' && match d, d' with
      | none, none => true
      | some x, some y => x.strictEqual y
      | _, _ => false
  | .concurrencyLimit a, .concurrencyLimit a' => a.strictEqual a'
  | .sharedLimit a, .sharedLimit a' => a = a'
  | .noLimit, .noLimit => true
  | .unrecognised a, .unrecognised a' => a = a'
  | _, _ => false

def limitsEqual : List DeclaredRateLimit → List DeclaredRateLimit → Bool
  | [], [] => true
  | a :: rest, b :: rest' => a.name = b.name && a.data.deepEqual b.data && limitsEqual rest rest'
  | _, _ => false

def clientDataEqual {δ : Type} (rules : ConfigRules δ) (a b : ClientData δ) : Bool :=
  a.name = b.name && rules.restEqual a.rest b.rest && match a.rateLimit, b.rateLimit with
    | none, none => true
    | some none, some none => true
    | some (some x), some (some y) => limitsEqual x y
    | _, _ => false

section Build

variable {δ : Type} (rules : ConfigRules δ)

/-- `buildClient`: an absent `rateLimit` is `noLimit`, and a shared one needs an owner that is not shared. -/
def buildClient (lookup : Registry δ) (data : ClientData δ) : Except ConfigurationError (RegisteredClient δ) :=
  match data.rateLimit.getD (some [⟨none, .noLimit⟩]) with
  | none => .error ⟨"unknown_rate_limit_type", data.name⟩
  | some declared =>
    let limits := normalizeRateLimit declared
    match rateLimitsProblem limits with
    | some code => .error ⟨code, data.name⟩
    | none =>
      match sharedOwner limits with
      | none =>
        match rules.constructorError data limits with
        | some error => .error error
        | none => .ok ⟨data, limits⟩
      | some parentName =>
        match lookup parentName with
        | none => .error ⟨"shared_limit_parent_not_found", data.name⟩
        | some parent =>
          if (sharedOwner parent.rateLimit).isSome then .error ⟨"shared_limit_parent_is_shared", data.name⟩
          else
            match rules.constructorError data limits with
            | some error => .error error
            | none => .ok ⟨data, limits⟩

/-- `lookup`: built by this pass, or registered and not about to be removed. -/
def lookupClient (registry : Registry δ) (retiring : List String) (built : Registry δ) : Registry δ :=
  fun name => (built name).or (if name ∈ retiring then none else registry name)

/-- Whether the walk leaves the registered client in place. -/
def keepsExisting (registry : Registry δ) (client : ClientData δ) : Bool :=
  match registry client.name with
  | none => false
  | some existing => clientDataEqual rules existing.source client

/-- `walk`: the clients to swap in, in order. -/
def walkClients (registry : Registry δ) (retiring : List String) (built : Registry δ) :
    List (Declaration δ) → Except ConfigurationError (List (RegisteredClient δ))
  | [] => .ok []
  | declaration :: rest =>
    if declaration.isSubClient ∧ ¬ nameSegment declaration.declaredName then
      .error ⟨"invalid_client_name_segment", declaration.declaredName⟩
    else if keepsExisting rules registry declaration.client then walkClients registry retiring built rest
    else
      match buildClient rules (lookupClient registry retiring built) declaration.client with
      | .error error => .error error
      | .ok next =>
        match walkClients registry retiring (Function.update built declaration.client.name (some next)) rest with
        | .error error => .error error
        | .ok replacements => .ok (next :: replacements)

def prepareClients (registry : Registry δ) (clients : List (CreateClientData δ)) (retiring : List String) :
    Except ConfigurationError (List (RegisteredClient δ)) :=
  walkClients rules registry retiring (fun _ => none) (listDeclarations rules none clients)

/-- A build that is prepared and not yet committed: the names it still has to remove, the clients it
still has to register, in order, and whether `resetClient` has made room for the first of them. -/
structure PreparedBuild (δ : Type) where
  retiring : List String := []
  replacements : List (RegisteredClient δ) := []
  cleared : Bool := false

/-- The clients registered, and the builds under way. -/
structure RegistryState (δ : Type) where
  clients : Registry δ := fun _ => none
  builds : List (PreparedBuild δ) := []

/-- `this.clients.delete(name)`. -/
def deleteClient (registry : Registry δ) (name : String) : Registry δ := Function.update registry name none

/-- What a build does up to its next wait: it removes a client it retires, then for each replacement makes
room and registers it, where the name is not taken by then. -/
def PreparedBuild.advance (build : PreparedBuild δ) (registry : Registry δ) : Registry δ × PreparedBuild δ :=
  match build.retiring with
  | name :: rest => (deleteClient registry name, { build with retiring := rest })
  | [] =>
    match build.replacements with
    | [] => (registry, {})
    | next :: rest =>
      if ¬ build.cleared then (deleteClient registry next.source.name, { build with cleared := true })
      else if (registry next.source.name).isSome then (registry, {})
      else (Function.update registry next.source.name (some next), { replacements := rest })

/-- What changes the registry: a build is prepared against the clients there are, and commits step by step,
others in between; or it ends where a removal supersedes it, or a teardown or an `init` throws. -/
inductive RegistryEvent (δ : Type) where
  | prepare (clients : List (CreateClientData δ)) (retiring : List String)
  | advance (i : ℕ)
  | abandon (i : ℕ)
  | remove (name : String)

def RegistryEvent.exec (s : RegistryState δ) : RegistryEvent δ → RegistryState δ
  | .prepare clients retiring =>
    match prepareClients rules s.clients clients retiring with
    | .error _ => s
    | .ok replacements => { s with builds := s.builds ++ [{ retiring, replacements }] }
  | .advance i =>
    match s.builds[i]? with
    | none => s
    | some build => ⟨(build.advance s.clients).1, s.builds.set i (build.advance s.clients).2⟩
  | .abandon i => { s with builds := s.builds.set i {} }
  | .remove name => { s with clients := deleteClient s.clients name }

/-- The states some run reaches whose events all meet `P`. -/
inductive Reached (P : RegistryState δ → RegistryEvent δ → Prop) : RegistryState δ → Prop where
  | empty : Reached P {}
  | step {s : RegistryState δ} (reached : Reached P s) (event : RegistryEvent δ) (meets : P s event) :
    Reached P (event.exec rules s)

/-- The events one after another. -/
def runEvents (events : List (RegistryEvent δ)) : RegistryState δ := events.foldl (RegistryEvent.exec rules) {}

/-- The owner of a budget that is borrowed and registered does not borrow itself. -/
def OneHop (registry : Registry δ) : Prop :=
  ∀ name client owner parent, registry name = some client → sharedOwner client.rateLimit = some owner →
    registry owner = some parent → sharedOwner parent.rateLimit = none

end Build

section OneHop

variable {δ : Type} {rules : ConfigRules δ}

/-- The client `buildClient` makes of a config it accepts. -/
def ClientData.built (data : ClientData δ) : RegisteredClient δ :=
  ⟨data, normalizeRateLimit ((data.rateLimit.getD (some [⟨none, .noLimit⟩])).getD [])⟩

/-- The client a build's next step registers. -/
def PreparedBuild.registers (build : PreparedBuild δ) (registry : Registry δ) : Option (RegisteredClient δ) :=
  if build.retiring = [] ∧ build.cleared = true then build.replacements.head?.filter fun next =>
    (registry next.source.name).isNone
  else none

/-- No client is registered as a borrower that names itself as its owner, or that some other registered
client, or one another build has prepared and not registered yet, names as its own. Between two
registrations of one build other calls run, so the registry there counts as reached. -/
def LeavesOwners (s : RegistryState δ) : RegistryEvent δ → Prop
  | .advance i => ∀ build next, s.builds[i]? = some build → build.registers s.clients = some next →
    (sharedOwner next.rateLimit).isSome →
    sharedOwner next.rateLimit ≠ some next.source.name ∧
      (∀ name other, s.clients name = some other → sharedOwner other.rateLimit ≠ some next.source.name) ∧
      ∀ j rival, j ≠ i → s.builds[j]? = some rival →
        ∀ other ∈ rival.replacements, sharedOwner other.rateLimit ≠ some next.source.name
  | _ => True

theorem buildClient_ok {lookup : Registry δ} {data : ClientData δ} {next : RegisteredClient δ}
    (run : buildClient rules lookup data = .ok next) :
    next = data.built ∧ ∀ owner, sharedOwner next.rateLimit = some owner →
      ∃ parent, lookup owner = some parent ∧ sharedOwner parent.rateLimit = none := by
  rw [buildClient] at run
  rw [ClientData.built]
  split at run
  · cases run
  rename_i declared field
  rw [field, Option.getD_some]
  dsimp only at run
  split at run
  · cases run
  split at run
  · rename_i own
    split at run
    · cases run
    · cases run
      refine ⟨rfl, fun owner borrows => ?_⟩
      rw [own] at borrows
      cases borrows
  · rename_i parentName shared
    split at run
    · cases run
    rename_i parent found
    split at run
    · cases run
    rename_i own
    split at run
    · cases run
    · cases run
      refine ⟨rfl, fun owner borrows => ⟨parent, ?_, Option.not_isSome_iff_eq_none.mp own⟩⟩
      rw [shared] at borrows
      cases borrows
      exact found

/-- The registry once the clients are swapped in, each taking its name over in turn. -/
def commitClients (registry : Registry δ) (replacements : List (RegisteredClient δ)) : Registry δ :=
  replacements.foldl (fun registry next => Function.update registry next.source.name (some next)) registry

theorem commitClients_concat (registry : Registry δ) (before : List (RegisteredClient δ))
    (next : RegisteredClient δ) :
    commitClients registry (before ++ [next]) =
      Function.update (commitClients registry before) next.source.name (some next) := by
  rw [commitClients, List.foldl_concat]
  rfl

/-- What is swapped in goes before what is registered. -/
theorem commitClients_or (registry : Registry δ) (before : List (RegisteredClient δ)) (name : String) :
    commitClients registry before name = (commitClients (fun _ => none) before name).or (registry name) := by
  induction before using List.reverseRecOn with
  | nil => rfl
  | append_singleton before next ih =>
    rw [commitClients_concat, commitClients_concat]
    by_cases same : name = next.source.name
    · subst same
      rw [Function.update_self, Function.update_self, Option.some_or]
    · rw [Function.update_of_ne same, Function.update_of_ne same, ih]

theorem lookupClient_commit (registry : Registry δ) (retiring : List String) (built : Registry δ)
    (before : List (RegisteredClient δ)) :
    lookupClient registry retiring (commitClients built before) =
      commitClients (lookupClient registry retiring built) before := by
  funext name
  rw [lookupClient, commitClients_or built, commitClients_or (lookupClient registry retiring built), Option.or_assoc]
  rfl

/-- A build makes a client of every config it does not keep, and accepts a borrower only for an owner that does
not borrow, as far as it has got. -/
theorem walkClients_ok {registry : Registry δ} {retiring : List String} {declarations : List (Declaration δ)}
    {built : Registry δ} {replacements : List (RegisteredClient δ)}
    (run : walkClients rules registry retiring built declarations = .ok replacements) :
    replacements = ((declarations.map Declaration.client).filter fun client =>
        !keepsExisting rules registry client).map
        ClientData.built ∧
      ∀ before next after, replacements = before ++ next :: after →
        ∀ owner, sharedOwner next.rateLimit = some owner →
        ∃ parent, commitClients (lookupClient registry retiring built) before owner = some parent ∧
          sharedOwner parent.rateLimit = none := by
  induction declarations generalizing built replacements with
  | nil =>
    cases run
    exact ⟨rfl, fun before next after split => absurd split (by simp)⟩
  | cons declaration rest ih =>
    rw [walkClients] at run
    split at run
    · cases run
    split at run
    · rename_i kept
      simpa [kept] using ih run
    rename_i rebuilt
    split at run
    · cases run
    rename_i next made
    split at run
    · cases run
    rename_i later walked
    cases run
    obtain ⟨same, checked⟩ := buildClient_ok made
    obtain ⟨listed, others⟩ := ih walked
    subst same
    refine ⟨?_, ?_⟩
    · simp [rebuilt, listed]
    · intro before next after split owner borrows
      cases before with
      | nil =>
        cases split
        exact checked owner borrows
      | cons first before =>
        cases split
        have found := others before next after rfl owner borrows
        rw [← lookupClient_commit] at found ⊢
        exact found

/-- Each client the build is to register borrows, if it does, from one that does not, as far as the build will have got. -/
def PreparedBuild.Sound (build : PreparedBuild δ) (registry : Registry δ) : Prop :=
  ∀ before next after, build.replacements = before ++ next :: after →
    ∀ owner, sharedOwner next.rateLimit = some owner →
    ∀ parent, commitClients registry before owner = some parent → sharedOwner parent.rateLimit = none

/-- What every run keeps: one hop among the registered clients, and builds that will keep it. -/
structure Owned (s : RegistryState δ) : Prop where
  oneHop : OneHop s.clients
  builds : ∀ (i : ℕ) (build : PreparedBuild δ), s.builds[i]? = some build → build.Sound s.clients

section Steps

variable {registry : Registry δ} {build : PreparedBuild δ} {next : RegisteredClient δ} {s : RegistryState δ}

theorem deleteClient_some {name held : String} {client : RegisteredClient δ}
    (found : deleteClient registry name held = some client) : registry held = some client := by
  rw [deleteClient, Function.update_apply] at found
  split at found
  · cases found
  · exact found

theorem OneHop.delete (oneHop : OneHop registry) (name : String) : OneHop (deleteClient registry name) :=
  fun borrower client owner parent held borrows registered =>
    oneHop borrower client owner parent (deleteClient_some held) borrows (deleteClient_some registered)

theorem PreparedBuild.Sound.delete (sound : build.Sound registry) (name : String) :
    build.Sound (deleteClient registry name) := by
  intro before next after split owner borrows parent found
  refine sound before next after split owner borrows parent ?_
  rw [commitClients_or] at found ⊢
  cases swapped : commitClients (fun _ => none) before owner with
  | some client =>
    rw [swapped] at found
    exact found
  | none =>
    rw [swapped, Option.none_or] at found
    exact deleteClient_some found

/-- A build a client is registered beside stays sound, unless it borrows from that client and the client borrows. -/
theorem PreparedBuild.Sound.beside (sound : build.Sound registry)
    (leaves : (sharedOwner next.rateLimit).isSome →
      ∀ other ∈ build.replacements, sharedOwner other.rateLimit ≠ some next.source.name) :
    build.Sound (Function.update registry next.source.name (some next)) := by
  intro before borrower after split owner borrows parent found
  rw [commitClients_or] at found
  cases swapped : commitClients (fun _ => none) before owner with
  | some client =>
    rw [swapped] at found
    refine sound before borrower after split owner borrows parent ?_
    rw [commitClients_or, swapped]
    exact found
  | none =>
    rw [swapped, Option.none_or] at found
    by_cases same : owner = next.source.name
    · subst same
      rw [Function.update_self] at found
      cases found
      by_contra lends
      exact leaves (Option.isSome_iff_ne_none.mpr lends) borrower (by rw [split]; simp) borrows
    · rw [Function.update_of_ne same] at found
      refine sound before borrower after split owner borrows parent ?_
      rw [commitClients_or, swapped]
      exact found

/-- One registration keeps the owners owners. -/
theorem OneHop.register (oneHop : OneHop registry)
    (checked : ∀ owner, sharedOwner next.rateLimit = some owner →
      ∀ parent, registry owner = some parent → sharedOwner parent.rateLimit = none)
    (leaves : (sharedOwner next.rateLimit).isSome → sharedOwner next.rateLimit ≠ some next.source.name ∧
      ∀ name other, registry name = some other → sharedOwner other.rateLimit ≠ some next.source.name) :
    OneHop (Function.update registry next.source.name (some next)) := by
  intro name client owner parent held borrows registered
  by_cases taken : owner = next.source.name
  · subst taken
    rw [Function.update_self] at registered
    cases registered
    by_contra lends
    obtain ⟨apart, unnamed⟩ := leaves (Option.isSome_iff_ne_none.mpr lends)
    by_cases self : name = next.source.name
    · subst self
      rw [Function.update_self] at held
      cases held
      exact apart borrows
    · rw [Function.update_of_ne self] at held
      exact unnamed name client held borrows
  · rw [Function.update_of_ne taken] at registered
    by_cases self : name = next.source.name
    · subst self
      rw [Function.update_self] at held
      cases held
      exact checked owner borrows parent registered
    · rw [Function.update_of_ne self] at held
      exact oneHop name client owner parent held borrows registered

/-- What a build's next step does: it deletes a client, ends, or registers the next in line. -/
theorem PreparedBuild.advance_cases (build : PreparedBuild δ) (registry : Registry δ) :
    (∃ name, (build.advance registry).1 = deleteClient registry name ∧
        (build.advance registry).2.replacements = build.replacements) ∨
      (build.advance registry).1 = registry ∧ (build.advance registry).2.replacements = [] ∨
        ∃ next rest, build.registers registry = some next ∧ build.replacements = next :: rest ∧
          (build.advance registry).1 = Function.update registry next.source.name (some next) ∧
          (build.advance registry).2.replacements = rest := by
  obtain ⟨retiring, replacements, cleared⟩ := build
  cases retiring with
  | cons name rest => exact .inl ⟨name, rfl, rfl⟩
  | nil =>
    cases replacements with
    | nil => exact .inr (.inl ⟨rfl, rfl⟩)
    | cons next rest =>
      cases cleared with
      | false => exact .inl ⟨next.source.name, rfl, rfl⟩
      | true =>
        cases taken : registry next.source.name with
        | some other =>
          refine .inr (.inl ?_)
          simp [advance, taken]
        | none =>
          refine .inr (.inr ⟨next, rest, ?_, rfl, ?_⟩)
          · simp [registers, taken]
          · simp [advance, taken]

theorem Owned.prepare (owned : Owned s) (clients : List (CreateClientData δ)) (retiring : List String) :
    Owned (RegistryEvent.exec rules s (.prepare clients retiring)) := by
  simp only [RegistryEvent.exec]
  cases prepared : prepareClients rules s.clients clients retiring with
  | error error => exact owned
  | ok replacements =>
    obtain ⟨-, checked⟩ := walkClients_ok prepared
    refine ⟨owned.oneHop, fun i build found => ?_⟩
    rcases List.mem_append.mp (List.mem_of_getElem? found) with before | last
    · obtain ⟨j, there⟩ := List.getElem?_of_mem before
      exact owned.builds j build there
    · cases List.mem_singleton.mp last
      intro before next after split owner borrows parent committed
      obtain ⟨seen, looked, own⟩ := checked before next after split owner borrows
      rw [commitClients_or] at committed looked
      cases swapped : commitClients (fun _ => none) before owner with
      | some client =>
        rw [swapped] at committed looked
        cases committed
        cases looked
        exact own
      | none =>
        rw [swapped, Option.none_or] at committed looked
        rw [lookupClient, Option.none_or] at looked
        split at looked
        · cases looked
        · rw [committed] at looked
          cases looked
          exact own

theorem Owned.advance (owned : Owned s) {i : ℕ} (leaves : LeavesOwners s (.advance i)) :
    Owned (RegistryEvent.exec rules s (.advance i)) := by
  simp only [RegistryEvent.exec]
  cases found : s.builds[i]? with
  | none => exact owned
  | some build =>
    have others : ∀ {j : ℕ} {rival : PreparedBuild δ} {registry : Registry δ},
        (build.advance s.clients).2.Sound registry →
        (∀ (j : ℕ) (rival : PreparedBuild δ), j ≠ i → s.builds[j]? = some rival → rival.Sound registry) →
        (s.builds.set i (build.advance s.clients).2)[j]? = some rival → rival.Sound registry := by
      intro j rival registry own rest there
      by_cases same : j = i
      · subst same
        rw [List.getElem?_set_self (List.getElem?_eq_some_iff.mp found).1] at there
        cases there
        exact own
      · rw [List.getElem?_set_ne (Ne.symm same)] at there
        exact rest j rival same there
    have kept : ∀ {after : PreparedBuild δ} {registry : Registry δ}, after.replacements = build.replacements →
        build.Sound registry → after.Sound registry := by
      intro after registry same sound
      rw [PreparedBuild.Sound, same]
      exact sound
    dsimp only
    rcases build.advance_cases s.clients with ⟨name, deleted, same⟩ | ⟨same, none_⟩ | ⟨next, rest,
      next_, line, registered, left⟩
    · rw [deleted]
      refine ⟨owned.oneHop.delete name, fun j rival =>
        others (kept same ((owned.builds i build found).delete name)) ?_⟩
      exact fun j rival _ there => (owned.builds j rival there).delete name
    · rw [same]
      refine ⟨owned.oneHop, fun j rival => others ?_ fun j rival _ there => owned.builds j rival there⟩
      intro before next after split
      rw [none_] at split
      exact absurd split (by simp)
    · have sound := owned.builds i build found
      have leaves := leaves build next found next_
      rw [registered]
      refine ⟨owned.oneHop.register ?_ fun borrows => ⟨(leaves borrows).1, (leaves borrows).2.1⟩,
        fun j rival => others ?_ ?_⟩
      · intro owner borrows parent held
        exact sound [] next rest line owner borrows parent held
      · intro before borrower after split owner borrows parent committed
        rw [left] at split
        exact sound (next :: before) borrower after (by rw [line, split]; rfl) owner borrows parent committed
      · intro j rival apart there
        exact (owned.builds j rival there).beside fun borrows => (leaves borrows).2.2 j rival apart there

theorem Owned.exec (owned : Owned s) {event : RegistryEvent δ} (leaves : LeavesOwners s event) :
    Owned (event.exec rules s) := by
  cases event with
  | prepare clients retiring => exact owned.prepare clients retiring
  | advance i => exact owned.advance leaves
  | abandon i =>
    refine ⟨owned.oneHop, fun j build found => ?_⟩
    rcases List.mem_or_eq_of_mem_set (List.mem_of_getElem? found) with before | empty
    · obtain ⟨k, there⟩ := List.getElem?_of_mem before
      exact owned.builds k build there
    · rw [empty]
      exact fun before next after split => absurd split (by simp)
  | remove name => exact ⟨owned.oneHop.delete name, fun i build found => (owned.builds i build found).delete name⟩

end Steps

/-- In a run that leaves the owners of borrowed budgets owners, one hop always reaches one. -/
theorem one_hop {s : RegistryState δ} (reached : Reached rules LeavesOwners s) : OneHop s.clients := by
  have owned : Owned s := by
    induction reached with
    | empty =>
      refine ⟨?_, fun i build found => absurd found (by simp)⟩
      intro borrower client owner parent held
      cases held
    | step reached event meets ih => exact ih.exec meets
  exact owned.oneHop

end OneHop

/-- Configs with nothing in them but their limits. -/
def bareRules : ConfigRules Unit := ⟨fun _ _ => (), fun _ _ => true, fun _ _ => none⟩

def bareClient (name : String) (data : RateLimitData) : CreateClientData Unit :=
  .mk ⟨name, some (some [⟨none, data⟩]), ()⟩ []

/-- A build with nothing else between its steps. -/
def wholeBuild (i swaps : ℕ) (clients : List (CreateClientData Unit)) : List (RegistryEvent Unit) :=
  .prepare clients [] :: List.replicate (2 * swaps) (.advance i)

/-- Two budgets and a borrower of the first; then the first is rebuilt as a borrower of the second. -/
def ownerRebuilt : List (RegistryEvent Unit) :=
  wholeBuild 0 3 [bareClient "owner" (.requestLimit 10 10 1000 none),
    bareClient "vendor" (.requestLimit 5 5 1000 none), bareClient "borrower" (.sharedLimit "owner")] ++
  wholeBuild 1 1 [bareClient "owner" (.sharedLimit "vendor")]

/-- The borrower is prepared, the first budget rebuilt as a borrower of the second, and the borrower registered. -/
def borrowerOvertaken : List (RegistryEvent Unit) :=
  wholeBuild 0 2 [bareClient "owner" (.requestLimit 10 10 1000 none),
    bareClient "vendor" (.requestLimit 5 5 1000 none)] ++
  .prepare [bareClient "borrower" (.sharedLimit "owner")] [] ::
  wholeBuild 2 1 [bareClient "owner" (.sharedLimit "vendor")] ++ [.advance 1, .advance 1]

theorem runEvents_take {events : List (RegistryEvent Unit)} {k : ℕ} {event : RegistryEvent Unit}
    (next : events[k]? = some event) :
    runEvents bareRules (events.take (k + 1)) = event.exec bareRules (runEvents bareRules (events.take k)) := by
  rw [List.take_add_one, next, Option.toList_some, runEvents, List.foldl_concat]
  rfl

/-- A run is reached one event after another. -/
theorem reached_runEvents {P : RegistryState Unit → RegistryEvent Unit → Prop} {events : List (RegistryEvent Unit)}
    (meets : ∀ (k : ℕ) (event : RegistryEvent Unit), events[k]? = some event →
      P (runEvents bareRules (events.take k)) event) :
    Reached bareRules P (runEvents bareRules events) := by
  have upTo : ∀ k, Reached bareRules P (runEvents bareRules (events.take k)) := by
    intro k
    induction k with
    | zero => exact .empty
    | succ k ih =>
      cases next : events[k]? with
      | none =>
        rw [List.take_add_one, next, Option.toList_none, List.append_nil]
        exact ih
      | some event =>
        rw [runEvents_take next]
        exact .step ih event (meets k event next)
  have whole := upTo events.length
  rw [List.take_length] at whole
  exact whole

theorem not_oneHop_of_borrows {registry : Registry Unit}
    (borrows : (registry "borrower").map (fun client => sharedOwner client.rateLimit) = some (some "owner"))
    (turned : (registry "owner").map (fun client => sharedOwner client.rateLimit) = some (some "vendor")) :
    ¬ OneHop registry := by
  intro oneHop
  obtain ⟨client, held, shares⟩ := Option.map_eq_some_iff.mp borrows
  obtain ⟨parent, registered, shares'⟩ := Option.map_eq_some_iff.mp turned
  have own := oneHop _ _ _ _ held shares registered
  rw [shares'] at own
  cases own

/-- An owner rebuilt is not checked against those that borrow from it, nor a borrower's owner again when
the borrower is registered. -/
theorem rebuilt_owner_borrows :
    (Reached bareRules (fun _ _ => True) (runEvents bareRules ownerRebuilt) ∧
        ¬ OneHop (runEvents bareRules ownerRebuilt).clients) ∧
      Reached bareRules (fun _ _ => True) (runEvents bareRules borrowerOvertaken) ∧
        ¬ OneHop (runEvents bareRules borrowerOvertaken).clients :=
  ⟨⟨reached_runEvents fun _ _ _ => trivial, not_oneHop_of_borrows (by decide +kernel) (by decide +kernel)⟩,
    reached_runEvents fun _ _ _ => trivial, not_oneHop_of_borrows (by decide +kernel) (by decide +kernel)⟩

/-- What is registered after a build's step was so before, or is the client the step registers. -/
theorem registered_advance {δ : Type} {rules : ConfigRules δ} {s : RegistryState δ} {i : ℕ} {name : String}
    {client : RegisteredClient δ} (held : ((RegistryEvent.advance i).exec rules s).clients name = some client) :
    s.clients name = some client ∨ (s.builds[i]?.bind fun build => build.registers s.clients) = some client := by
  simp only [RegistryEvent.exec] at held
  cases found : s.builds[i]? with
  | none =>
    rw [found] at held
    exact .inl held
  | some build =>
    rw [found] at held
    dsimp only at held
    rcases build.advance_cases s.clients with ⟨_, deleted, _⟩ | ⟨same, _⟩ | ⟨next, _, next_, _, registered, _⟩
    · rw [deleted] at held
      exact .inl (deleteClient_some held)
    · rw [same] at held
      exact .inl held
    · rw [registered, Function.update_apply] at held
      split at held
      · cases held
        exact .inr next_
      · exact .inl held

/-- A budget and its borrower, built with nothing in between. -/
def borrowedBudget : List (RegistryEvent Unit) :=
  wholeBuild 0 2 [bareClient "owner" (.requestLimit 10 10 1000 none), bareClient "borrower" (.sharedLimit "owner")]

/-- What each step of that build registers, if it registers one, borrows from another client, and only the last borrows. -/
theorem borrowedBudget_registers {k : ℕ} (later : k < 5) {next : RegisteredClient Unit}
    (registers : ((runEvents bareRules (borrowedBudget.take k)).builds[0]?.bind fun build =>
      build.registers (runEvents bareRules (borrowedBudget.take k)).clients) = some next) :
    sharedOwner next.rateLimit ≠ some next.source.name ∧ (k < 4 → sharedOwner next.rateLimit = none) := by
  have checked : ∀ k < 5, ((runEvents bareRules (borrowedBudget.take k)).builds[0]?.bind fun build =>
      build.registers (runEvents bareRules (borrowedBudget.take k)).clients).all (fun next =>
        sharedOwner next.rateLimit ≠ some next.source.name ∧
          (k < 4 → sharedOwner next.rateLimit = none)) = true := by
    decide +kernel
  have here := checked k later
  rw [registers, Option.all_some] at here
  exact of_decide_eq_true here

theorem one_hop_borrowed : OneHop (runEvents bareRules borrowedBudget).clients := by
  have events : ∀ {k : ℕ} {event : RegistryEvent Unit}, borrowedBudget[k]? = some event →
      k < 5 ∧ (k ≠ 0 → event = .advance 0) := by
    intro k event next
    match k, next with
    | 0, _ => simp
    | 1, next | 2, next | 3, next | 4, next => cases next; simp
    | k + 5, next => cases next
  -- until the borrower is registered, no client borrows
  have lend : ∀ k < 5, ∀ name client, (runEvents bareRules (borrowedBudget.take k)).clients name = some client →
      sharedOwner client.rateLimit = none := by
    intro k
    induction k with
    | zero => exact fun _ name client held => by cases held
    | succ k ih =>
      intro later name client held
      have earlier : k < 5 := by omega
      cases next : borrowedBudget[k]? with
      | none =>
        rw [List.take_add_one, next, Option.toList_none, List.append_nil] at held
        exact ih earlier name client held
      | some event =>
        rw [runEvents_take next] at held
        by_cases start : k = 0
        · subst start
          cases next
          have prepared : (runEvents bareRules (borrowedBudget.take 0)).clients name = some client := by
            simp only [RegistryEvent.exec] at held
            split at held <;> exact held
          exact ih earlier name client prepared
        · cases (events next).2 start
          rcases registered_advance held with before | new
          · exact ih earlier name client before
          · exact (borrowedBudget_registers earlier new).2 (by omega)
  refine one_hop (reached_runEvents fun k event next => ?_)
  have alone : ∀ k < 5, (runEvents bareRules (borrowedBudget.take k)).builds.length ≤ 1 := by decide +kernel
  obtain ⟨later, advances⟩ := events next
  by_cases start : k = 0
  · subst start
    cases next
    trivial
  · cases advances start
    intro build client found registers borrows
    have new : ((runEvents bareRules (borrowedBudget.take k)).builds[0]?.bind fun build =>
        build.registers (runEvents bareRules (borrowedBudget.take k)).clients) = some client := by
      rw [found, Option.bind_some, registers]
    refine ⟨(borrowedBudget_registers later new).1, ?_, ?_⟩
    · intro name other held shares
      rw [lend k later name other held] at shares
      cases shares
    · intro j rival apart there
      have bound := (List.getElem?_eq_some_iff.mp there).1
      have single := alone k later
      omega

end Dianemo
