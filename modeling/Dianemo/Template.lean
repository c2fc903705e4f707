import Dianemo.Registry
import Dianemo.Library.Timed

namespace Dianemo

section Names

variable {δ : Type}

mutual

/-- `collectClientNames` of one client; an empty prefix is no prefix. -/
def CreateClientData.names (parentPrefix : Option String) : CreateClientData δ → List String
  | .mk client subClients =>
    let name := match parentPrefix with
      | none => client.name
      | some prefix_ => if prefix_ = "" then client.name else prefix_ ++ ":" ++ client.name
    name :: collectNames (some name) subClients

def collectNames (parentPrefix : Option String) : List (CreateClientData δ) → List String
  | [] => []
  | head :: rest => head.names parentPrefix ++ collectNames parentPrefix rest

end

/-- `collectClientNames`. -/
def collectClientNames (clients : List (CreateClientData δ)) : List String := (collectNames none clients).eraseDups

def CreateClientData.rootName : CreateClientData δ → String
  | .mk client _ => client.name

/-- The prefix names are collected under is the parent clients are built under. -/
def PrefixOf (parentPrefix : Option String) : Option (ClientData δ) → Prop
  | none => parentPrefix = none
  | some parent => parentPrefix = some parent.name ∧ parent.name ≠ ""

theorem joined_ne (parent child : String) : parent ++ ":" ++ child ≠ "" := by
  intro empty
  have length := congrArg String.length empty
  simp only [String.length_append] at length
  have colon : (":" : String).length = 1 := rfl
  have none_ : ("" : String).length = 0 := rfl
  omega

mutual

/-- The names collected are those the clients are built under. -/
theorem CreateClientData.declarations_names (rules : ConfigRules δ) {parentPrefix : Option String}
    {parent : Option (ClientData δ)} (under : PrefixOf parentPrefix parent) :
    ∀ client : CreateClientData δ, (parent = none → client.rootName ≠ "") →
      (client.declarations rules parent).map (fun d => d.client.name) = client.names parentPrefix
  | .mk declared subClients, named => by
    cases parent with
    | none =>
      cases under
      have below : PrefixOf (some declared.name) (some declared) := ⟨rfl, named rfl⟩
      have rest := listDeclarations_names rules below subClients (fun none_ => nomatch none_)
      simp only [CreateClientData.declarations, CreateClientData.names, List.map_cons, rest]
    | some parent =>
      obtain ⟨rfl, nonempty⟩ := under
      have below : PrefixOf (some (parent.name ++ ":" ++ declared.name))
          (some (mergeChildParentClients rules declared parent)) := ⟨rfl, joined_ne _ _⟩
      have rest := listDeclarations_names rules below subClients (fun none_ => nomatch none_)
      simp only [CreateClientData.declarations, CreateClientData.names, List.map_cons, if_neg nonempty, rest]
      rfl

theorem listDeclarations_names (rules : ConfigRules δ) {parentPrefix : Option String}
    {parent : Option (ClientData δ)} (under : PrefixOf parentPrefix parent) :
    ∀ clients : List (CreateClientData δ), (parent = none → ∀ client ∈ clients, client.rootName ≠ "") →
      (listDeclarations rules parent clients).map (fun d => d.client.name) = collectNames parentPrefix clients
  | [], _ => rfl
  | head :: rest, named => by
    have first := head.declarations_names rules under fun none_ => named none_ head (List.mem_cons_self ..)
    have others := listDeclarations_names rules under rest
      fun none_ client mem => named none_ client (List.mem_cons_of_mem _ mem)
    simp only [listDeclarations, collectNames, List.map_append, first, others]

end

/-- A build registers nothing outside the names it records. -/
theorem prepareClients_names {rules : ConfigRules δ} {registry : Registry δ} {clients : List (CreateClientData δ)}
    {retiring : List String} {replacements : List (RegisteredClient δ)}
    (named : ∀ client ∈ clients, client.rootName ≠ "")
    (prepared : prepareClients rules registry clients retiring = .ok replacements) :
    ∀ next ∈ replacements, next.source.name ∈ collectClientNames clients := by
  intro next mem
  obtain ⟨listed, -⟩ := walkClients_ok prepared
  rw [listed] at mem
  obtain ⟨client, built, rfl⟩ := List.mem_map.mp mem
  obtain ⟨declaration, declared, rfl⟩ := List.mem_map.mp (List.mem_of_mem_filter built)
  have under : PrefixOf (none : Option String) (none : Option (ClientData δ)) := rfl
  have names := listDeclarations_names rules under clients fun _ => named
  rw [collectClientNames, List.mem_eraseDups, ← names]
  exact List.mem_map_of_mem declared

end Names

/-- What `planTemplateBuild` runs into: no builder, a throw, or a list of clients. -/
inductive TemplateBuilder (δ : Type) where
  | unregistered
  | throws
  | clients (list : List (CreateClientData δ))

/-- An object of this process: a client or a set of names, told apart by identity. -/
abbrev Object (α : Type) := ℕ × α

/-- Where a build is, between two of its awaits. -/
inductive BuildStage (δ : Type) where
  | waiting (builder : TemplateBuilder δ)
  | retiring (left newClientNames : List String) (replacements : List (Object (RegisteredClient δ)))
  | recording (left : ℕ) (replacements : List (Object (RegisteredClient δ)))
  | committing (replacements : List (Object (RegisteredClient δ)))
  | registering (next : Object (RegisteredClient δ)) (rest : List (Object (RegisteredClient δ)))
  | initialising (rest : List (Object (RegisteredClient δ)))

/-- Where a removal is. -/
inductive RemovalStage where
  | waiting
  | destroying (names : Option (Object (List String))) (left : List (String × ℕ))
  | purging (names : Option (Object (List String)))

inductive EntryStage (δ : Type) where
  | build (generation : ℕ) (stage : BuildStage δ)
  | removal (stage : RemovalStage)

/-- A call of `buildAndRegisterTemplateClients` or `destroyTemplateClients`. -/
structure EntryOperation (δ : Type) where
  id : ℕ
  stage : EntryStage δ

/-- A handler as one `(templateName, instanceId)` sees it. The first of `queue` holds the entry's lock. -/
structure TemplateState (δ : Type) where
  generation : ℕ
  clients : String → Option (Object (RegisteredClient δ))
  record : Option (Object (List String))
  queue : List (EntryOperation δ)
  made : ℕ

/-- `client.name.split(":").includes(instanceId)`. -/
def namesInstance {δ : Type} (instanceId : String) (client : CreateClientData δ) : Bool :=
  decide (instanceId.toList ∈ client.rootName.toList.splitOn ':')

namespace TemplateState

variable {δ : Type} (rules : ConfigRules δ) (instanceId : String)

/-- The names recorded for the entry. -/
def recordNames (σ : TemplateState δ) : List String := σ.record.elim [] Prod.snd

/-- The holder of the lock is done with it. -/
def finish (σ : TemplateState δ) : TemplateState δ := { σ with queue := σ.queue.tail }

/-- The holder of the lock goes on at `stage`. -/
def goOn (σ : TemplateState δ) (id : ℕ) (stage : EntryStage δ) : TemplateState δ :=
  { σ with queue := ⟨id, stage⟩ :: σ.queue.tail }

/-- `this.clients.delete(name)`. -/
def dropClient (σ : TemplateState δ) (name : String) : TemplateState δ :=
  { σ with clients := Function.update σ.clients name none }

/-- New clients, each an object of its own. -/
def numbered (first : ℕ) : List (RegisteredClient δ) → List (Object (RegisteredClient δ))
  | [] => []
  | next :: rest => (first, next) :: numbered (first + 1) rest

/-- `doBuildAndRegister` up to its first await, under the lock. -/
def startBuild (σ : TemplateState δ) (id generation : ℕ) (builder : TemplateBuilder δ) : TemplateState δ :=
  if generation ≠ σ.generation then σ.finish
  else
    match builder with
    | .unregistered => σ.finish
    | .throws => σ.finish
    | .clients list =>
      if ¬ list.all (namesInstance instanceId) then σ.finish
      else
        let newClientNames := collectClientNames list
        let retiring := σ.recordNames.filter fun name => decide (name ∉ newClientNames)
        match prepareClients rules (fun name => (σ.clients name).map Prod.snd) list retiring with
        | .error _ => σ.finish
        | .ok replacements =>
          { σ.goOn id (.build generation (.retiring retiring newClientNames (numbered σ.made replacements))) with
            made := σ.made + replacements.length }

/-- One stretch of a build between two awaits; `fails` is a client's teardown or `init` throwing. -/
def advanceBuild (fails : Bool) (σ : TemplateState δ) (id generation : ℕ) : BuildStage δ → TemplateState δ
  | .waiting builder => startBuild rules instanceId σ id generation builder
  | .retiring (prevName :: left) newClientNames replacements =>
    if fails ∧ (σ.clients prevName).isSome then σ.finish
    else (σ.dropClient prevName).goOn id (.build generation (.retiring left newClientNames replacements))
  | .retiring [] newClientNames replacements =>
    { σ.goOn id (.build generation (.recording (newClientNames.length + 1) replacements)) with
      record := some (σ.made, newClientNames)
      made := σ.made + 1 }
  | .recording (left + 1) replacements => σ.goOn id (.build generation (.recording left replacements))
  | .recording 0 replacements =>
    if generation ≠ σ.generation then σ.finish else σ.goOn id (.build generation (.committing replacements))
  | .committing [] => σ.finish
  | .committing (next :: rest) =>
    if fails ∧ (σ.clients next.2.source.name).isSome then σ.finish
    else (σ.dropClient next.2.source.name).goOn id (.build generation (.registering next rest))
  | .registering next rest =>
    if (σ.clients next.2.source.name).isSome then σ.finish
    else { σ.goOn id (.build generation (.initialising rest)) with
      clients := Function.update σ.clients next.2.source.name (some next) }
  | .initialising rest => if fails then σ.finish else σ.goOn id (.build generation (.committing rest))

/-- One stretch of a removal between two awaits. -/
def advanceRemoval (σ : TemplateState δ) (id : ℕ) : RemovalStage → TemplateState δ
  | .waiting =>
    let left := σ.recordNames.filterMap fun name => (σ.clients name).map fun client => (name, client.1)
    σ.goOn id (.removal (.destroying σ.record left))
  | .destroying names ((name, client) :: left) =>
    let dropped := if (σ.clients name).map Prod.fst = some client then σ.dropClient name else σ
    dropped.goOn id (.removal (.destroying names left))
  | .destroying names [] => σ.goOn id (.removal (.purging names))
  | .purging names =>
    match names with
    | none => σ.finish
    | some (object, _) =>
      if σ.record.map Prod.fst = some object then { σ.finish with record := none } else σ.finish

/-- The holder of the lock runs to its next await. -/
def advance (fails : Bool) (σ : TemplateState δ) : TemplateState δ :=
  match σ.queue with
  | [] => σ
  | ⟨id, .build generation stage⟩ :: _ => advanceBuild rules instanceId fails σ id generation stage
  | ⟨id, .removal stage⟩ :: _ => advanceRemoval σ id stage

end TemplateState

/-- `elsewhere` is what the handler's other clients do meanwhile. -/
inductive TemplateEvent (δ : Type) where
  | build (generation : ℕ) (builder : TemplateBuilder δ)
  | removal
  | advance (fails : Bool)
  | elsewhere (clients : String → Option (Object (RegisteredClient δ)))

/-- Runs of one entry whose clients are named in `own`: calls queue on the entry's lock,
a removal having bumped the generation first, and a build was handed a generation read before. -/
def templateRuns {δ : Type} (rules : ConfigRules δ) (instanceId : String) (own : Set String) :
    Timed.Machine ℚ (TemplateState δ) (TemplateEvent δ) where
  step _ event σ := match event with
    | .build generation builder =>
      { σ with queue := σ.queue ++ [⟨σ.made, .build generation (.waiting builder)⟩], made := σ.made + 1 }
    | .removal =>
      { σ with generation := σ.generation + 1, queue := σ.queue ++
        [⟨σ.made, .removal .waiting⟩], made := σ.made + 1 }
    | .advance fails => σ.advance rules instanceId fails
    | .elsewhere clients => { σ with clients := clients }
  allowed _ event σ := match event with
    | .build generation builder => generation ≤ σ.generation ∧
        ∀ list, builder = .clients list → ∀ name ∈ collectClientNames list, name ∈ own
    | .removal => True
    | .advance _ => True
    | .elsewhere clients => ∀ name ∈ own, clients name = σ.clients name

section Invariant

variable {δ : Type} {rules : ConfigRules δ} {instanceId : String} {own : Set String} {σ : TemplateState δ}

/-- A call that has not got the lock. -/
def EntryOperation.Waits (op : EntryOperation δ) : Prop :=
  (∃ generation builder, op.stage = .build generation (.waiting builder)) ∨ op.stage = .removal .waiting

/-- The entry's clients are among the names recorded for it. -/
def Covered (own : Set String) (σ : TemplateState δ) : Prop :=
  ∀ name ∈ own, (σ.clients name).isSome → name ∈ σ.recordNames

/-- Replacements that take names the entry has recorded. -/
def Recording (σ : TemplateState δ) (replacements : List (Object (RegisteredClient δ))) : Prop :=
  ∀ next ∈ replacements, next.2.source.name ∈ σ.recordNames

/-- What holds while the lock is held at `stage`. -/
def StageHolds (own : Set String) (σ : TemplateState δ) : EntryStage δ → Prop
  | .build _ (.waiting _) => Covered own σ
  | .build _ (.retiring left newClientNames replacements) => Covered own σ ∧
      (∀ name ∈ own, (σ.clients name).isSome → name ∈ newClientNames ∨ name ∈ left) ∧
      ∀ next ∈ replacements, next.2.source.name ∈ newClientNames
  | .build _ (.recording _ replacements) => Covered own σ ∧ Recording σ replacements
  | .build _ (.committing replacements) => Covered own σ ∧ Recording σ replacements
  | .build _ (.registering next rest) => Covered own σ ∧ Recording σ (next :: rest)
  | .build _ (.initialising rest) => Covered own σ ∧ Recording σ rest
  | .removal .waiting => Covered own σ
  | .removal (.destroying names left) => names = σ.record ∧
      ∀ name ∈ own, ∀ client, σ.clients name = some client → (name, client.1) ∈ left
  | .removal (.purging names) => names = σ.record ∧ ∀ name ∈ own, σ.clients name = none

/-- One call at a time is past the lock, and it keeps the record over the clients. -/
structure Serial (own : Set String) (σ : TemplateState δ) : Prop where
  others : ∀ op ∈ σ.queue.tail, op.Waits
  holder : ∀ op ∈ σ.queue.head?, StageHolds own σ op.stage
  idle : σ.queue = [] → Covered own σ

variable {σ' : TemplateState δ}

theorem Covered.congr (clients : ∀ name ∈ own, σ'.clients name = σ.clients name) (record : σ'.record = σ.record)
    (covered : Covered own σ) : Covered own σ' := by
  intro name mem registered
  rw [clients name mem] at registered
  simpa only [TemplateState.recordNames, record] using covered name mem registered

/-- The invariant is about the entry's clients and its record. -/
theorem StageHolds.congr (clients : ∀ name ∈ own, σ'.clients name = σ.clients name) (record : σ'.record = σ.record)
    {stage : EntryStage δ} (holds : StageHolds own σ stage) : StageHolds own σ' stage := by
  have names : σ'.recordNames = σ.recordNames := by
    rw [TemplateState.recordNames, record, TemplateState.recordNames]
  have recording : ∀ replacements, Recording σ replacements → Recording σ' replacements := by
    intro replacements within next mem
    rw [names]
    exact within next mem
  cases stage with
  | build generation stage =>
    cases stage with
    | waiting builder => exact Covered.congr clients record holds
    | retiring left newClientNames replacements =>
      refine ⟨holds.1.congr clients record, fun name mem registered => ?_, holds.2.2⟩
      rw [clients name mem] at registered
      exact holds.2.1 name mem registered
    | recording left replacements => exact ⟨holds.1.congr clients record, recording _ holds.2⟩
    | committing replacements => exact ⟨holds.1.congr clients record, recording _ holds.2⟩
    | registering next rest => exact ⟨holds.1.congr clients record, recording _ holds.2⟩
    | initialising rest => exact ⟨holds.1.congr clients record, recording _ holds.2⟩
  | removal stage =>
    cases stage with
    | waiting => exact Covered.congr clients record holds
    | destroying names left =>
      refine ⟨holds.1.trans record.symm, fun name mem client registered => ?_⟩
      rw [clients name mem] at registered
      exact holds.2 name mem client registered
    | purging names =>
      refine ⟨holds.1.trans record.symm, fun name mem => ?_⟩
      rw [clients name mem]
      exact holds.2 name mem

theorem EntryOperation.Waits.holds {op : EntryOperation δ} (waits : op.Waits) (covered : Covered own σ) :
    StageHolds own σ op.stage := by
  rcases waits with ⟨generation, builder, stage⟩ | stage
  · rw [stage]
    exact covered
  · rw [stage]
    exact covered

/-- The next in line takes the lock over a covered entry. -/
theorem Serial.finish (serial : Serial own σ) (covered : Covered own σ) : Serial own σ.finish := by
  refine ⟨fun op mem => serial.others op (List.mem_of_mem_tail mem), fun op head => ?_, fun _ => ?_⟩
  · have waits := serial.others op (List.mem_of_mem_head? head)
    exact waits.holds (covered.congr (fun _ _ => rfl) rfl)
  · exact covered.congr (fun _ _ => rfl) rfl

theorem Serial.goOn (σ : TemplateState δ) (others : ∀ op ∈ σ.queue.tail, op.Waits) {id : ℕ} {stage : EntryStage δ}
    (holds : StageHolds own σ stage) : Serial own (σ.goOn id stage) := by
  refine ⟨others, fun op head => ?_, nofun⟩
  cases head
  exact holds.congr (fun _ _ => rfl) rfl

theorem Serial.congr (serial : Serial own σ) (clients : ∀ name ∈ own, σ'.clients name = σ.clients name)
    (record : σ'.record = σ.record) (queue : σ'.queue = σ.queue) : Serial own σ' := by
  refine ⟨?_, ?_, ?_⟩
  · rw [queue]
    exact serial.others
  · rw [queue]
    exact fun op head => (serial.holder op head).congr clients record
  · rw [queue]
    exact fun none_ => (serial.idle none_).congr clients record

theorem Serial.enqueue (serial : Serial own σ) {op : EntryOperation δ} (waits : op.Waits)
    (clients : σ'.clients = σ.clients) (record : σ'.record = σ.record) (queue : σ'.queue = σ.queue ++ [op]) :
    Serial own σ' := by
  have same : ∀ name ∈ own, σ'.clients name = σ.clients name := fun name _ => congrFun clients name
  rcases empty : σ.queue with _ | ⟨head, tail⟩
  · rw [empty, List.nil_append] at queue
    refine ⟨?_, ?_, ?_⟩
    · rw [queue]
      nofun
    · rw [queue]
      rintro _ ⟨⟩
      exact waits.holds ((serial.idle empty).congr same record)
    · rw [queue]
      nofun
  · rw [empty, List.cons_append] at queue
    refine ⟨?_, ?_, ?_⟩
    · rw [queue]
      intro other mem
      rcases List.mem_append.mp mem with old | new
      · exact serial.others other (by rw [empty]; exact old)
      · rw [List.mem_singleton.mp new]
        exact waits
    · rw [queue]
      rintro _ ⟨⟩
      exact (serial.holder head (by rw [empty]; rfl)).congr same record
    · rw [queue]
      nofun

theorem Covered.dropClient (covered : Covered own σ) (name : String) : Covered own (σ.dropClient name) := by
  intro other mem registered
  refine covered other mem ?_
  by_cases same : other = name
  · subst same
    simp [TemplateState.dropClient] at registered
  · simpa [TemplateState.dropClient, Function.update_of_ne same] using registered

theorem numbered_names (first : ℕ) (replacements : List (RegisteredClient δ)) {P : String → Prop}
    (all : ∀ next ∈ replacements, P next.source.name) :
    ∀ next ∈ TemplateState.numbered first replacements, P next.2.source.name := by
  induction replacements generalizing first with
  | nil => nofun
  | cons head rest ih =>
    intro next mem
    rcases List.mem_cons.mp mem with rfl | mem
    · exact all head (List.mem_cons_self ..)
    · exact ih (first + 1) (fun next mem => all next (List.mem_cons_of_mem _ mem)) next mem

theorem rootName_ne {client : CreateClientData δ} (instance_ : instanceId ≠ "")
    (named : namesInstance instanceId client = true) : client.rootName ≠ "" := by
  intro empty
  have mem := of_decide_eq_true named
  rw [empty] at mem
  have alone : instanceId.toList = [] := by simpa using mem
  exact instance_ (String.toList_eq_nil_iff.mp alone)

theorem serial_advanceBuild (instance_ : instanceId ≠ "") (serial : Serial own σ) {id generation : ℕ}
    {stage : BuildStage δ} (holds : StageHolds own σ (.build generation stage)) (fails : Bool) :
    Serial own (σ.advanceBuild rules instanceId fails id generation stage) := by
  cases stage with
  | waiting builder =>
    have covered : Covered own σ := holds
    rw [TemplateState.advanceBuild]
    unfold TemplateState.startBuild
    split
    · exact serial.finish covered
    cases builder with
    | unregistered => exact serial.finish covered
    | throws => exact serial.finish covered
    | clients list =>
      dsimp only
      split
      · exact serial.finish covered
      rename_i named
      split
      · exact serial.finish covered
      rename_i replacements prepared
      have roots : ∀ client ∈ list, client.rootName ≠ "" := fun client mem =>
        rootName_ne instance_ (List.all_eq_true.mp (not_not.mp named) client mem)
      have within := numbered_names σ.made replacements (prepareClients_names roots prepared)
      have started : Serial own (σ.goOn id (.build generation (.retiring
          (σ.recordNames.filter fun name => decide (name ∉ collectClientNames list)) (collectClientNames list)
          (TemplateState.numbered σ.made replacements)))) := by
        refine Serial.goOn σ serial.others ⟨covered, ?_, within⟩
        intro name mem registered
        by_cases new : name ∈ collectClientNames list
        · exact .inl new
        · exact .inr (List.mem_filter.mpr ⟨covered name mem registered, decide_eq_true new⟩)
      exact started.congr (fun _ _ => rfl) rfl rfl
  | retiring left newClientNames replacements =>
    obtain ⟨covered, parted, within⟩ := holds
    cases left with
    | nil =>
      rw [TemplateState.advanceBuild]
      -- what is left of the old names is among the new ones
      have after : Covered own { σ with record := some (σ.made, newClientNames), made := σ.made + 1 } := by
        intro name mem registered
        rcases parted name mem registered with new | none_
        · exact new
        · cases none_
      refine Serial.goOn { σ with record := some (σ.made, newClientNames), made := σ.made + 1 } serial.others ?_
      exact ⟨after, within⟩
    | cons prevName left =>
      rw [TemplateState.advanceBuild]
      split
      · exact serial.finish covered
      refine Serial.goOn (σ.dropClient prevName) serial.others ?_
      refine ⟨covered.dropClient prevName, ?_, within⟩
      intro name mem registered
      have apart : name ≠ prevName := by
        rintro rfl
        simp [TemplateState.dropClient] at registered
      have before : (σ.clients name).isSome := by
        simpa [TemplateState.dropClient, Function.update_of_ne apart] using registered
      exact (parted name mem before).imp_right fun either => (List.mem_cons.mp either).resolve_left apart
  | recording left replacements =>
    obtain ⟨covered, within⟩ := holds
    cases left with
    | zero =>
      rw [TemplateState.advanceBuild]
      split
      · exact serial.finish covered
      · refine Serial.goOn σ serial.others ?_
        exact ⟨covered, within⟩
    | succ left =>
      rw [TemplateState.advanceBuild]
      refine Serial.goOn σ serial.others ?_
      exact ⟨covered, within⟩
  | committing replacements =>
    obtain ⟨covered, within⟩ := holds
    cases replacements with
    | nil => exact serial.finish covered
    | cons next rest =>
      rw [TemplateState.advanceBuild]
      split
      · exact serial.finish covered
      · refine Serial.goOn (σ.dropClient _) serial.others ?_
        exact ⟨covered.dropClient _, within⟩
  | registering next rest =>
    obtain ⟨covered, within⟩ := holds
    rw [TemplateState.advanceBuild]
    split
    · exact serial.finish covered
    · have listed : next.2.source.name ∈ σ.recordNames := within next (List.mem_cons_self ..)
      have after : Covered own { σ with clients := Function.update σ.clients next.2.source.name (some next) } := by
        intro name mem registered
        by_cases same : name = next.2.source.name
        · exact same ▸ listed
        · exact covered name mem (by simpa [Function.update_of_ne same] using registered)
      refine Serial.goOn { σ with clients := Function.update σ.clients next.2.source.name (some next) } serial.others ?_
      exact ⟨after, fun other mem => within other (List.mem_cons_of_mem _ mem)⟩
  | initialising rest =>
    obtain ⟨covered, within⟩ := holds
    rw [TemplateState.advanceBuild]
    split
    · exact serial.finish covered
    · refine Serial.goOn σ serial.others ?_
      exact ⟨covered, within⟩

/-- Nothing of the entry is left. -/
def Cleared (own : Set String) (σ : TemplateState δ) : Prop :=
  σ.record = none ∧ ∀ name ∈ own, σ.clients name = none

theorem Cleared.covered (cleared : Cleared own σ) : Covered own σ := by
  intro name mem registered
  rw [cleared.2 name mem] at registered
  cases registered

/-- A removal ends with nothing of the entry left. -/
theorem purged {id : ℕ} {names : Option (Object (List String))}
    (holds : StageHolds own σ (.removal (.purging names))) :
    Cleared own (σ.advanceRemoval id (.purging names)) ∧
      (σ.advanceRemoval id (.purging names)).queue = σ.queue.tail := by
  obtain ⟨same, none_⟩ := holds
  cases names with
  | none => exact ⟨⟨same.symm, none_⟩, rfl⟩
  | some recorded =>
    rw [TemplateState.advanceRemoval, if_pos (by rw [← same]; rfl)]
    exact ⟨⟨rfl, none_⟩, rfl⟩

theorem Serial.cleared (others : ∀ op ∈ σ.queue, op.Waits) (cleared : Cleared own σ) : Serial own σ where
  others op mem := others op (List.mem_of_mem_tail mem)
  holder op head := (others op (List.mem_of_mem_head? head)).holds cleared.covered
  idle _ := cleared.covered

theorem serial_advanceRemoval (serial : Serial own σ) {id : ℕ} {stage : RemovalStage}
    (holds : StageHolds own σ (.removal stage)) : Serial own (σ.advanceRemoval id stage) := by
  cases stage with
  | waiting =>
    refine Serial.goOn σ serial.others ?_
    refine ⟨rfl, fun name mem client registered => ?_⟩
    have listed : name ∈ σ.recordNames := holds name mem (by rw [registered]; rfl)
    exact List.mem_filterMap.mpr ⟨name, listed, by rw [registered]; rfl⟩
  | destroying names left =>
    obtain ⟨same, others⟩ := holds
    cases left with
    | nil =>
      refine Serial.goOn σ serial.others ?_
      refine ⟨same, fun name mem => ?_⟩
      cases registered : σ.clients name with
      | none => rfl
      | some client => exact absurd (others name mem client registered) List.not_mem_nil
    | cons head left =>
      obtain ⟨name, client⟩ := head
      rw [TemplateState.advanceRemoval]
      split
      · refine Serial.goOn (σ.dropClient name) serial.others ?_
        refine ⟨same, fun other mem registered held => ?_⟩
        have apart : other ≠ name := by
          rintro rfl
          simp [TemplateState.dropClient] at held
        have before : σ.clients other = some registered := by
          simpa [TemplateState.dropClient, Function.update_of_ne apart] using held
        refine (List.mem_cons.mp (others other mem registered before)).resolve_left fun first => ?_
        exact apart (Prod.mk.inj first).1
      · rename_i replaced
        refine Serial.goOn σ serial.others ?_
        refine ⟨same, fun other mem registered held => ?_⟩
        refine (List.mem_cons.mp (others other mem registered held)).resolve_left fun first => ?_
        obtain ⟨rfl, rfl⟩ := Prod.mk.inj first
        exact replaced (by rw [held]; rfl)
  | purging names =>
    obtain ⟨cleared, queue⟩ : _ ∧ (σ.advanceRemoval id (.purging names)).queue = σ.queue.tail := purged holds
    refine Serial.cleared ?_ cleared
    rw [queue]
    exact serial.others

/-- The stages of a commit that has begun. -/
def EntryStage.Begun : EntryStage δ → Prop
  | .build _ (.committing _) => True
  | .build _ (.registering ..) => True
  | .build _ (.initialising _) => True
  | _ => False

/-- What a stretch of a build does to the lock: it is passed on, or kept at the next stage. -/
inductive BuildMoved (σ σ' : TemplateState δ) (id generation : ℕ) (stage : BuildStage δ) : Prop where
  | finished (queue : σ'.queue = σ.queue.tail) (same : σ'.generation = σ.generation)
  | wentOn (next : BuildStage δ) (queue : σ'.queue = ⟨id, .build generation next⟩ :: σ.queue.tail)
    (same : σ'.generation = σ.generation)
    (begins : (EntryStage.build generation next : EntryStage δ).Begun →
      (EntryStage.build generation stage : EntryStage δ).Begun ∨ generation = σ.generation)

theorem advanceBuild_moved (fails : Bool) (id generation : ℕ) (stage : BuildStage δ) :
    BuildMoved σ (σ.advanceBuild rules instanceId fails id generation stage) id generation stage := by
  cases stage with
  | waiting builder =>
    rw [TemplateState.advanceBuild]
    unfold TemplateState.startBuild
    split
    · exact .finished rfl rfl
    cases builder with
    | unregistered => exact .finished rfl rfl
    | throws => exact .finished rfl rfl
    | clients list =>
      dsimp only
      split
      · exact .finished rfl rfl
      split
      · exact .finished rfl rfl
      · exact .wentOn _ rfl rfl nofun
  | retiring left newClientNames replacements =>
    cases left with
    | nil => exact .wentOn _ rfl rfl nofun
    | cons prevName left =>
      rw [TemplateState.advanceBuild]
      split
      · exact .finished rfl rfl
      · exact .wentOn _ rfl rfl nofun
  | recording left replacements =>
    cases left with
    | zero =>
      rw [TemplateState.advanceBuild]
      split
      · exact .finished rfl rfl
      · rename_i current
        exact .wentOn _ rfl rfl fun _ => .inr (not_not.mp current)
    | succ left => exact .wentOn _ rfl rfl nofun
  | committing replacements =>
    cases replacements with
    | nil => exact .finished rfl rfl
    | cons head rest =>
      rw [TemplateState.advanceBuild]
      split
      · exact .finished rfl rfl
      · exact .wentOn _ rfl rfl fun _ => .inl trivial
  | registering head rest =>
    rw [TemplateState.advanceBuild]
    split
    · exact .finished rfl rfl
    · exact .wentOn _ rfl rfl fun _ => .inl trivial
  | initialising rest =>
    rw [TemplateState.advanceBuild]
    split
    · exact .finished rfl rfl
    · exact .wentOn _ rfl rfl fun _ => .inl trivial

/-- The same of a removal. -/
inductive RemovalMoved (σ σ' : TemplateState δ) (id : ℕ) : RemovalStage → Prop where
  | finished (names : Option (Object (List String))) (queue : σ'.queue = σ.queue.tail)
    (same : σ'.generation = σ.generation) : RemovalMoved σ σ' id (.purging names)
  | wentOn (stage next : RemovalStage) (queue : σ'.queue = ⟨id, .removal next⟩ :: σ.queue.tail)
    (same : σ'.generation = σ.generation) : RemovalMoved σ σ' id stage

theorem advanceRemoval_moved (id : ℕ) (stage : RemovalStage) :
    RemovalMoved σ (σ.advanceRemoval id stage) id stage := by
  cases stage with
  | waiting => exact .wentOn _ _ rfl rfl
  | destroying names left =>
    cases left with
    | nil => exact .wentOn _ _ rfl rfl
    | cons head left =>
      rw [TemplateState.advanceRemoval]
      split
      · exact .wentOn _ _ rfl rfl
      · exact .wentOn _ _ rfl rfl
  | purging names =>
    cases names with
    | none => exact .finished _ rfl rfl
    | some recorded =>
      rw [TemplateState.advanceRemoval]
      split
      · exact .finished _ rfl rfl
      · exact .finished _ rfl rfl

/-- What a stretch of either call does: nothing with no call, else what the head's stage says. -/
inductive Advanced (σ σ' : TemplateState δ) : Prop where
  | idle (queue : σ.queue = []) (same : σ' = σ)
  | build (id generation : ℕ) (stage : BuildStage δ) (queue : σ.queue.head? = some ⟨id, .build generation stage⟩)
    (moved : BuildMoved σ σ' id generation stage)
  | removal (id : ℕ) (stage : RemovalStage) (queue : σ.queue.head? = some ⟨id, .removal stage⟩)
    (moved : RemovalMoved σ σ' id stage)

theorem advance_advanced (fails : Bool) : Advanced σ (σ.advance rules instanceId fails) := by
  rw [TemplateState.advance]
  split
  · rename_i empty
    exact .idle empty rfl
  · rename_i id generation stage tail queue
    exact .build id generation stage (by rw [queue]; rfl) (advanceBuild_moved fails id generation stage)
  · rename_i id stage tail queue
    exact .removal id stage (by rw [queue]; rfl) (advanceRemoval_moved id stage)

/-- A commit that goes on was going on, or its build's generation is the current one. -/
theorem Advanced.begun (advanced : Advanced σ σ') {op : EntryOperation δ} (mem : op ∈ σ'.queue) {generation : ℕ}
    {stage : BuildStage δ} (build : op.stage = .build generation stage) (begun : op.stage.Begun) :
    generation = σ.generation ∨ ∃ old ∈ σ.queue, old.id = op.id ∧ old.stage.Begun ∧
      ∃ stage', old.stage = .build generation stage' := by
  have stays : op ∈ σ.queue → generation = σ.generation ∨ ∃ old ∈ σ.queue, old.id = op.id ∧ old.stage.Begun ∧
      ∃ stage', old.stage = .build generation stage' :=
    fun old => .inr ⟨op, old, rfl, begun, stage, build⟩
  cases advanced with
  | idle queue same =>
    rw [same] at mem
    exact stays mem
  | build id generation' stage' head moved =>
    cases moved with
    | finished queue same =>
      rw [queue] at mem
      exact stays (List.mem_of_mem_tail mem)
    | wentOn next queue same begins =>
      rw [queue] at mem
      rcases List.mem_cons.mp mem with rfl | old
      · obtain ⟨rfl, -⟩ := EntryStage.build.inj build
        rcases begins begun with before | current
        · exact .inr ⟨_, List.mem_of_mem_head? head, rfl, before, stage', rfl⟩
        · exact .inl current
      · exact stays (List.mem_of_mem_tail old)
  | removal id stage' head moved =>
    cases moved with
    | finished names queue same =>
      rw [queue] at mem
      exact stays (List.mem_of_mem_tail mem)
    | wentOn _ next queue same =>
      rw [queue] at mem
      rcases List.mem_cons.mp mem with rfl | old
      · cases begun
      · exact stays (List.mem_of_mem_tail old)

/-- Only a removal bumps the generation. -/
theorem Advanced.generation (advanced : Advanced σ σ') : σ'.generation = σ.generation := by
  cases advanced with
  | idle queue same => rw [same]
  | build id generation stage head moved =>
    cases moved with
    | finished queue same => exact same
    | wentOn next queue same begins => exact same
  | removal id stage head moved =>
    cases moved with
    | finished names queue same => exact same
    | wentOn _ next queue same => exact same

/-- Calls that do not hold the lock stay in line. -/
theorem Advanced.tail (advanced : Advanced σ σ') {op : EntryOperation δ}
    (mem : op ∈ σ.queue.tail) : op ∈ σ'.queue := by
  cases advanced with
  | idle queue same =>
    rw [queue] at mem
    cases mem
  | build id generation stage head moved =>
    cases moved with
    | finished queue same => rwa [queue]
    | wentOn next queue same begins =>
      rw [queue]
      exact List.mem_cons_of_mem _ mem
  | removal id stage head moved =>
    cases moved with
    | finished names queue same => rwa [queue]
    | wentOn _ next queue same =>
      rw [queue]
      exact List.mem_cons_of_mem _ mem

theorem dropClient_ne {name other : String} {client : Object (RegisteredClient δ)}
    (after : (σ.dropClient other).clients name = some client) : σ.clients name = some client := by
  by_cases same : name = other
  · subst same
    simp [TemplateState.dropClient] at after
  · simpa [TemplateState.dropClient, Function.update_of_ne same] using after

/-- Only a commit that has begun registers a client. -/
theorem advance_registers {fails : Bool} {name : String} {client : Object (RegisteredClient δ)}
    (after : (σ.advance rules instanceId fails).clients name = some client) (new : σ.clients name ≠ some client) :
    ∃ op ∈ σ.queue.head?, op.stage.Begun := by
  rw [TemplateState.advance] at after
  split at after
  · exact absurd after new
  · rename_i id generation stage tail queue
    have head : (⟨id, .build generation stage⟩ : EntryOperation δ) ∈ σ.queue.head? := by
      rw [queue]
      rfl
    cases stage with
    | waiting builder =>
      rw [TemplateState.advanceBuild] at after
      unfold TemplateState.startBuild at after
      split at after
      · exact absurd after new
      cases builder with
      | unregistered => exact absurd after new
      | throws => exact absurd after new
      | clients list =>
        dsimp only at after
        split at after
        · exact absurd after new
        split at after
        · exact absurd after new
        · exact absurd after new
    | retiring left newClientNames replacements =>
      cases left with
      | nil => exact absurd after new
      | cons prevName left =>
        rw [TemplateState.advanceBuild] at after
        split at after
        · exact absurd after new
        · exact absurd (dropClient_ne after) new
    | recording left replacements =>
      cases left with
      | zero =>
        rw [TemplateState.advanceBuild] at after
        split at after
        · exact absurd after new
        · exact absurd after new
      | succ left => exact absurd after new
    | committing replacements => exact ⟨_, head, trivial⟩
    | registering next rest => exact ⟨_, head, trivial⟩
    | initialising rest => exact ⟨_, head, trivial⟩
  · rename_i id stage tail queue
    cases stage with
    | waiting => exact absurd after new
    | destroying names left =>
      cases left with
      | nil => exact absurd after new
      | cons head left =>
        obtain ⟨other, object⟩ := head
        rw [TemplateState.advanceRemoval] at after
        split at after
        · exact absurd (dropClient_ne after) new
        · exact absurd after new
    | purging names =>
      cases names with
      | none => exact absurd after new
      | some recorded =>
        rw [TemplateState.advanceRemoval] at after
        split at after
        · exact absurd after new
        · exact absurd after new

end Invariant

section Runs

variable {δ : Type} {rules : ConfigRules δ} {instanceId : String} {own : Set String}
    {σ : TemplateState δ} {t now : ℚ}

theorem generation_mono (event : TemplateEvent δ) :
    σ.generation ≤ ((templateRuns rules instanceId own).step now event σ).generation := by
  cases event with
  | build generation builder => exact le_rfl
  | removal => exact Nat.le_succ _
  | advance fails => exact (advance_advanced fails).generation.ge
  | elsewhere clients => exact le_rfl

theorem final_generation (history : List (ℚ × TemplateEvent δ)) :
    σ.generation ≤ ((templateRuns rules instanceId own).final σ history).generation := by
  induction history generalizing σ with
  | nil => exact le_rfl
  | cons head rest ih => exact (generation_mono head.2).trans ih

theorem Serial.step (instance_ : instanceId ≠ "") (serial : Serial own σ) {event : TemplateEvent δ}
    (allowed : (templateRuns rules instanceId own).allowed now event σ) :
    Serial own ((templateRuns rules instanceId own).step now event σ) := by
  cases event with
  | build generation builder => exact serial.enqueue (.inl ⟨generation, builder, rfl⟩) rfl rfl rfl
  | removal => exact serial.enqueue (.inr rfl) rfl rfl rfl
  | elsewhere clients => exact serial.congr allowed rfl rfl
  | advance fails =>
    change Serial own (σ.advance rules instanceId fails)
    rw [TemplateState.advance]
    split
    · exact serial
    · rename_i id generation stage tail queue
      exact serial_advanceBuild instance_ serial (serial.holder _ (by rw [queue]; rfl)) fails
    · rename_i id stage tail queue
      exact serial_advanceRemoval serial (serial.holder _ (by rw [queue]; rfl))

/-- Every build in line was handed a generation other than `last`. -/
def Stale (last : ℕ) (σ : TemplateState δ) : Prop :=
  ∀ op ∈ σ.queue, ∀ generation stage, op.stage = .build generation stage → generation ≠ last

/-- A removal is still to finish, or nothing of the entry is left and nothing in line brings it back. -/
def Settling (own : Set String) (σ : TemplateState δ) : Prop :=
  (∃ op ∈ σ.queue, ∃ stage, op.stage = .removal stage) ∨ Cleared own σ ∧ ∀ op ∈ σ.queue, op.Waits

theorem Stale.advanced {last : ℕ} {σ' : TemplateState δ} (stale : Stale last σ) (advanced : Advanced σ σ') :
    Stale last σ' := by
  intro op mem generation stage build
  cases advanced with
  | idle queue same =>
    rw [same] at mem
    exact stale op mem generation stage build
  | build id generation' stage' head moved =>
    cases moved with
    | finished queue same =>
      rw [queue] at mem
      exact stale op (List.mem_of_mem_tail mem) generation stage build
    | wentOn next queue same begins =>
      rw [queue] at mem
      rcases List.mem_cons.mp mem with rfl | old
      · cases build
        exact stale _ (List.mem_of_mem_head? head) _ _ rfl
      · exact stale op (List.mem_of_mem_tail old) generation stage build
  | removal id stage' head moved =>
    cases moved with
    | finished names queue same =>
      rw [queue] at mem
      exact stale op (List.mem_of_mem_tail mem) generation stage build
    | wentOn _ next queue same =>
      rw [queue] at mem
      rcases List.mem_cons.mp mem with rfl | old
      · cases build
      · exact stale op (List.mem_of_mem_tail old) generation stage build

theorem advance_removal {id : ℕ} {stage : RemovalStage}
    (head : σ.queue.head? = some ⟨id, .removal stage⟩) (fails : Bool) :
    σ.advance rules instanceId fails = σ.advanceRemoval id stage := by
  rw [TemplateState.advance]
  split
  · rename_i empty
    rw [empty] at head
    cases head
  · rename_i queue
    rw [queue] at head
    cases head
  · rename_i queue
    rw [queue] at head
    cases head
    rfl

/-- A build that starts after its record was removed does nothing. -/
theorem advance_superseded {id generation : ℕ} {builder : TemplateBuilder δ}
    (head : σ.queue.head? = some ⟨id, .build generation (.waiting builder)⟩)
    (superseded : generation ≠ σ.generation)
    (fails : Bool) : σ.advance rules instanceId fails = σ.finish := by
  rw [TemplateState.advance]
  split
  · rename_i empty
    rw [empty] at head
    cases head
  · rename_i queue
    rw [queue] at head
    cases head
    rw [TemplateState.advanceBuild]
    unfold TemplateState.startBuild
    rw [if_pos superseded]
  · rename_i queue
    rw [queue] at head
    cases head

theorem Settling.advance (serial : Serial own σ) (stale : Stale σ.generation σ)
    (settling : Settling own σ) (fails : Bool) : Settling own (σ.advance rules instanceId fails) := by
  have advanced : Advanced σ (σ.advance rules instanceId fails) := advance_advanced fails
  rcases settling with ⟨op, mem, stage, removal⟩ | ⟨cleared, waiting⟩
  · rcases queue : σ.queue with _ | ⟨head, tail⟩
    · rw [queue] at mem
      cases mem
    rw [queue] at mem
    rcases List.mem_cons.mp mem with rfl | later
    · obtain ⟨id, at_⟩ := op
      cases removal
      have first : σ.queue.head? = some ⟨id, .removal stage⟩ := by
        rw [queue]
        rfl
      have holds : StageHolds own σ (.removal stage) := serial.holder _ first
      rw [advance_removal first fails]
      have moved : RemovalMoved σ (σ.advanceRemoval id stage) id stage := advanceRemoval_moved id stage
      cases moved with
      | wentOn _ next after same => exact .inl ⟨_, by rw [after]; exact List.mem_cons_self .., next, rfl⟩
      | finished names after same =>
        obtain ⟨cleared, rest⟩ : _ ∧ (σ.advanceRemoval id (.purging names)).queue = σ.queue.tail := purged holds
        refine .inr ⟨cleared, ?_⟩
        rw [rest]
        exact serial.others
    · exact .inl ⟨op, advanced.tail (by rw [queue]; exact later), stage, removal⟩
  · rcases queue : σ.queue with _ | ⟨head, tail⟩
    · rw [TemplateState.advance, queue]
      exact .inr ⟨cleared, waiting⟩
    have first : σ.queue.head? = some head := by
      rw [queue]
      rfl
    obtain ⟨id, at_⟩ := head
    rcases waiting _ (List.mem_of_mem_head? first) with ⟨generation, builder, rfl⟩ | rfl
    · have superseded := stale _ (List.mem_of_mem_head? first) _ _ rfl
      rw [advance_superseded first superseded fails]
      exact .inr ⟨cleared, fun op mem => waiting op (List.mem_of_mem_tail mem)⟩
    · rw [advance_removal first fails]
      exact .inl ⟨_, List.mem_cons_self .., _, rfl⟩

theorem Stale.enqueue {last : ℕ} {σ' : TemplateState δ} (stale : Stale last σ) {op : EntryOperation δ}
    (queue : σ'.queue = σ.queue ++ [op])
    (new : ∀ generation stage, op.stage = .build generation stage → generation ≠ last) :
    Stale last σ' := by
  rw [Stale, queue]
  intro other mem
  rcases List.mem_append.mp mem with old | added
  · exact stale other old
  · rw [List.mem_singleton.mp added]
    exact new

/-- From the last removal on the entry settles. -/
theorem settled {last : ℕ} (instance_ : instanceId ≠ "") {history : List (ℚ × TemplateEvent δ)}
    (valid : (templateRuns rules instanceId own).Valid t σ history) (serial : Serial own σ) (stale : Stale last σ)
    (settling : σ.generation = last → Settling own σ)
    (early : ∀ now generation builder, (now, .build generation builder) ∈ history → generation ≠ last)
    (final : ((templateRuns rules instanceId own).final σ history).generation = last) :
    Serial own ((templateRuns rules instanceId own).final σ history) ∧
      Settling own ((templateRuns rules instanceId own).final σ history) := by
  induction history generalizing σ t with
  | nil => exact ⟨serial, settling final⟩
  | cons head rest ih =>
    obtain ⟨now, event⟩ := head
    obtain ⟨-, allowed, valid⟩ := Timed.Machine.valid_cons.mp valid
    have onward := fun now generation builder mem => early now generation builder (List.mem_cons_of_mem _ mem)
    refine ih valid (serial.step instance_ allowed) ?_ ?_ onward final
    · cases event with
      | build generation builder =>
        refine stale.enqueue rfl fun generation' stage build => ?_
        obtain ⟨rfl, -⟩ := EntryStage.build.inj build
        exact early now generation builder (List.mem_cons_self ..)
      | removal => exact stale.enqueue rfl nofun
      | advance fails => exact stale.advanced (advance_advanced fails)
      | elsewhere clients => exact stale
    · intro current
      cases event with
      | build generation builder =>
        rcases settling current with ⟨op, mem, removal⟩ | ⟨cleared, waiting⟩
        · exact .inl ⟨op, List.mem_append_left _ mem, removal⟩
        · refine .inr ⟨cleared, fun op mem => ?_⟩
          rcases List.mem_append.mp mem with old | added
          · exact waiting op old
          · rw [List.mem_singleton.mp added]
            exact .inl ⟨generation, builder, rfl⟩
      | removal => exact .inl ⟨_, List.mem_append_right _ (List.mem_singleton_self _), _, rfl⟩
      | advance fails =>
        have same : σ.generation = last := (advance_advanced fails).generation.symm.trans current
        exact (settling same).advance serial (same ▸ stale) fails
      | elsewhere clients =>
        refine (settling current).imp_right fun ⟨cleared, waiting⟩ => ⟨⟨cleared.1, fun name mem => ?_⟩, waiting⟩
        exact (allowed name mem).trans (cleared.2 name mem)

/-- Commits of builds handed a generation up to `last` are those under way in `σ`. -/
def UnderWay (last : ℕ) (σ σ' : TemplateState δ) : Prop :=
  last < σ'.generation ∧ ∀ op ∈ σ'.queue, op.stage.Begun → ∀ generation stage, op.stage = .build generation stage →
    generation ≤ last → ∃ op' ∈ σ.queue, op'.id = op.id ∧ op'.stage.Begun

theorem UnderWay.step {last : ℕ} {σ' : TemplateState δ} (underWay : UnderWay last σ σ') (event : TemplateEvent δ) :
    UnderWay last σ ((templateRuns rules instanceId own).step now event σ') := by
  obtain ⟨later, commits⟩ := underWay
  refine ⟨later.trans_le (generation_mono event), fun op mem begun generation stage build old => ?_⟩
  cases event with
  | build generation' builder =>
    rcases List.mem_append.mp mem with before | added
    · exact commits op before begun generation stage build old
    · rw [List.mem_singleton.mp added] at begun
      cases begun
  | removal =>
    rcases List.mem_append.mp mem with before | added
    · exact commits op before begun generation stage build old
    · rw [List.mem_singleton.mp added] at begun
      cases begun
  | elsewhere clients => exact commits op mem begun generation stage build old
  | advance fails =>
    rcases (advance_advanced fails).begun mem build begun
      with current | ⟨before, held, same, begun', stage', build'⟩
    · omega
    · obtain ⟨op', held', same', begun''⟩ := commits before held begun' generation stage' build' old
      exact ⟨op', held', same'.trans same, begun''⟩

theorem UnderWay.run {last : ℕ} {σ' : TemplateState δ} (underWay : UnderWay last σ σ')
    (history : List (ℚ × TemplateEvent δ)) :
    UnderWay last σ ((templateRuns rules instanceId own).final σ' history) := by
  induction history generalizing σ' with
  | nil => exact underWay
  | cons head rest ih => exact ih (underWay.step head.2)

/-- A build handed its generation before a removal registers nothing after it but by a commit already begun. -/
def RegistersNoLonger (rules : ConfigRules δ) (instanceId : String) (own : Set String) (σ : TemplateState δ)
    (history : List (ℚ × TemplateEvent δ)) : Prop :=
  ∀ early now late, history = early ++ (now, .removal) :: late → ∀ before now' fails after,
    late = before ++ (now', .advance fails) :: after →
    let bumped := (templateRuns rules instanceId own).final σ early
    let reached := (templateRuns rules instanceId own).final σ (early ++ (now, .removal) :: before)
    ∀ name client, (reached.advance rules instanceId fails).clients name = some client →
      reached.clients name ≠ some client →
      ∃ op ∈ reached.queue.head?, ∃ generation stage, op.stage = .build generation stage ∧
        (generation ≤ bumped.generation → ∃ op' ∈ bumped.queue, op'.id = op.id ∧ op'.stage.Begun)

theorem registers_no_longer (history : List (ℚ × TemplateEvent δ)) :
    RegistersNoLonger rules instanceId own σ history := by
  rintro early now late rfl before now' fails after rfl bumped reached name client registered new
  obtain ⟨op, head, begun⟩ := advance_registers registered new
  have start : UnderWay bumped.generation bumped
      ((templateRuns rules instanceId own).step now .removal bumped) := by
    refine ⟨Nat.lt_succ_self _, fun op mem begun generation stage build old => ?_⟩
    rcases List.mem_append.mp mem with held | added
    · exact ⟨op, held, rfl, begun⟩
    · rw [List.mem_singleton.mp added] at begun
      cases begun
  have underWay : UnderWay bumped.generation bumped reached := by
    have run : UnderWay _ _ ((templateRuns rules instanceId own).final _ before) := start.run before
    rwa [← Timed.Machine.final, ← Timed.Machine.final_append] at run
  obtain ⟨id, at_⟩ := op
  cases at_ with
  | removal stage => cases begun
  | build generation stage =>
    exact ⟨_, head, generation, stage, rfl, fun old => underWay.2 _ (List.mem_of_mem_head? head) begun _ _ rfl old⟩

/-- A removed entry stays removed: a stale build registers nothing more, and once
every call is done nothing of the entry is left. -/
theorem removed_entry_stays_removed (instance_ : instanceId ≠ "") (idle : σ.queue = []) (covered : Covered own σ)
    {history : List (ℚ × TemplateEvent δ)} (valid : (templateRuns rules instanceId own).Valid t σ history) :
    RegistersNoLonger rules instanceId own σ history ∧
      ((∃ now, (now, .removal) ∈ history) →
        (∀ now generation builder, (now, .build generation builder) ∈ history →
          generation ≠ ((templateRuns rules instanceId own).final σ history).generation) →
        ((templateRuns rules instanceId own).final σ history).queue = [] →
        Cleared own ((templateRuns rules instanceId own).final σ history)) := by
  refine ⟨registers_no_longer history, ?_⟩
  rintro ⟨now, removal⟩ early done
  have bumped : σ.generation ≠ ((templateRuns rules instanceId own).final σ history).generation := by
    obtain ⟨before, after, rfl⟩ := List.append_of_mem removal
    rw [Timed.Machine.final_append]
    have first : σ.generation ≤ ((templateRuns rules instanceId own).final σ before).generation :=
      final_generation before
    have last : _ ≤
        ((templateRuns rules instanceId own).final ((templateRuns rules instanceId own).step now .removal
        ((templateRuns rules instanceId own).final σ before)) after).generation := final_generation after
    have up : ((templateRuns rules instanceId own).step now .removal
        ((templateRuns rules instanceId own).final σ before)).generation =
        ((templateRuns rules instanceId own).final σ before).generation + 1 := rfl
    rw [Timed.Machine.final]
    omega
  have serial : Serial own σ := by
    refine ⟨?_, ?_, fun _ => covered⟩
    · simp [idle]
    · simp [idle]
  have stale : Stale ((templateRuns rules instanceId own).final σ history).generation σ := by
    simp [Stale, idle]
  obtain ⟨-, settling⟩ := settled instance_ valid serial stale (fun same => absurd same bumped) early rfl
  rcases settling with ⟨op, mem, -⟩ | ⟨cleared, -⟩
  · rw [done] at mem
    cases mem
  · exact cleared

end Runs

/-- A handler before it has built anything. -/
def emptyHandler : TemplateState Unit := ⟨0, fun _ => none, none, [], 0⟩

/-- One client of the instance `i`. -/
def instanceBuilder : TemplateBuilder Unit := .clients [bareClient "shop:_:i" (.requestLimit 10 10 1000 none)]

/-- Two builds from records read before the removal, the second started after it. -/
def staleBuildRun : List (ℚ × TemplateEvent Unit) :=
  ((0, .build 0 instanceBuilder) :: (List.range 5).map fun n => ((1 + n : ℚ), .advance false)) ++ (6, .removal) ::
    (7, .build 0 instanceBuilder) :: (List.range 9).map fun n => ((8 + n : ℚ), .advance false)

/-- A test that an event is allowed in a run whose one client is `name`. -/
def TemplateEvent.plans (name : String) (σ : TemplateState Unit) : TemplateEvent Unit → Bool
  | .build generation (.clients list) =>
    decide (generation ≤ σ.generation) && (collectClientNames list).all (· = name)
  | .build generation _ => decide (generation ≤ σ.generation)
  | .removal => true
  | .advance _ => true
  | .elsewhere _ => false

theorem plans_allowed (name : String) (now : ℚ) (event : TemplateEvent Unit) (σ : TemplateState Unit)
    (plans : event.plans name σ = true) : (templateRuns bareRules "i" {name}).allowed now event σ := by
  cases event with
  | build generation builder =>
    cases builder with
    | unregistered => exact ⟨of_decide_eq_true plans, nofun⟩
    | throws => exact ⟨of_decide_eq_true plans, nofun⟩
    | clients list =>
      obtain ⟨current, own⟩ := Bool.and_eq_true_iff.mp plans
      refine ⟨of_decide_eq_true current, ?_⟩
      rintro _ ⟨⟩ other mem
      exact of_decide_eq_true (List.all_eq_true.mp own other mem)
  | removal => trivial
  | advance fails => trivial
  | elsewhere clients => cases plans

theorem removed_entry_stays_removed_stale :
    Cleared {"shop:_:i"} ((templateRuns bareRules "i" {"shop:_:i"}).final emptyHandler staleBuildRun) := by
  have checked : (templateRuns bareRules "i" {"shop:_:i"}).checks
      (fun _ event σ => event.plans "shop:_:i" σ) 0 emptyHandler
      staleBuildRun = true := by decide +kernel
  have valid : (templateRuns bareRules "i" {"shop:_:i"}).Valid 0 emptyHandler staleBuildRun :=
    Timed.Machine.valid_of_checks (plans_allowed "shop:_:i") checked
  have bumped : ((templateRuns bareRules "i" {"shop:_:i"}).final emptyHandler staleBuildRun).generation = 1 := by
    decide +kernel
  have early : staleBuildRun.all (fun e => match e.2 with
      | .build generation _ => decide (generation = 0)
      | _ => true) = true := by decide +kernel
  have done : ((templateRuns bareRules "i" {"shop:_:i"}).final emptyHandler staleBuildRun).queue.length = 0 := by
    decide +kernel
  have covered : Covered {"shop:_:i"} emptyHandler := fun name _ registered => Bool.noConfusion registered
  refine (removed_entry_stays_removed (by decide) rfl covered valid).2 ⟨6,
    List.mem_append_right _ (List.mem_cons_self ..)⟩ ?_
    (List.length_eq_zero_iff.mp done)
  intro now generation builder mem
  have old : generation = 0 := of_decide_eq_true (List.all_eq_true.mp early _ mem)
  rw [bumped, old]
  exact zero_ne_one

end Dianemo
