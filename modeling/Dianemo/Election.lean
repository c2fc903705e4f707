import Dianemo.JsNumber
import Dianemo.Library.Precedence

namespace Dianemo

open JsNumber

/-- A value `JSON.parse` returns. -/
inductive Json where
  | null
  | bool (b : Bool)
  | num (q : ℚ)
  | str (s : String)
  | arr (items : List Json)
  | obj (fields : List (String × Json))

/-- `JSON.stringify` writes `null` for a number that is not finite. -/
def Json.ofNumber : JsNumber → Json
  | fin q => .num q
  | _ => .null

inductive RateLimitType where
  | requestLimit
  | concurrencyLimit
  | sharedLimit
  | noLimit
  deriving DecidableEq

inductive ClientRole where
  | controller
  | worker
  deriving DecidableEq

inductive RequestHandlerStatus where
  | stopped
  | starting
  | started
  | stopping
  deriving DecidableEq

/-- What an election reads and writes of a client. -/
structure RoleClient where
  rateLimit : List RateLimitType
  role : ClientRole

/-- A replica: `this.clients`, in its order and by registered name. -/
structure RequestHandler where
  id : String
  status : RequestHandlerStatus
  priority : JsNumber
  clients : List (String × RoleClient)
  distinct : (clients.map Prod.fst).Nodup

structure RequestHandlerMetadata where
  id : String
  status : RequestHandlerStatus
  priority : JsNumber
  registeredClients : List String
  ownedClients : List String

/-- A registration as an election reads it: a peer's client list is whatever its JSON holds. -/
structure Registration where
  id : String
  priority : JsNumber
  registeredClients : List Json

def isSharedLimitOnly (config : List RateLimitType) : Bool := config.length = 1 && config[0]? = some .sharedLimit

def RequestHandlerStatus.text : RequestHandlerStatus → String
  | .stopped => "stopped"
  | .starting => "starting"
  | .started => "started"
  | .stopping => "stopping"

namespace RequestHandler

def getMetadata (handler : RequestHandler) : RequestHandlerMetadata where
  id := handler.id
  status := if handler.status = .stopping then .stopped else handler.status
  priority := handler.priority
  registeredClients := handler.clients.map Prod.fst
  ownedClients := (handler.clients.filter fun c => c.2.role = .controller).map Prod.fst

end RequestHandler

/-- `JSON.stringify` of a registration, as `JSON.parse` gives it back. -/
def RequestHandlerMetadata.json (metadata : RequestHandlerMetadata) : Json :=
  .obj [("id", .str metadata.id), ("status", .str metadata.status.text), ("priority", .ofNumber metadata.priority),
    ("registeredClients", .arr (metadata.registeredClients.map .str)),
    ("ownedClients", .arr (metadata.ownedClients.map .str))]

def RequestHandlerMetadata.registration (metadata : RequestHandlerMetadata) : Registration :=
  ⟨metadata.id, metadata.priority, metadata.registeredClients.map .str⟩

def Json.field (value : Json) (name : String) : Option Json :=
  match value with
  | .obj fields => fields.lookup name
  | _ => none

/-- `isElectableRegistration`, and the fields it finds. -/
def isElectableRegistration (value : Json) : Option Registration :=
  match value.field "id", value.field "priority", value.field "registeredClients" with
  | some (.str id), some (.num priority), some (.arr registeredClients) =>
    some ⟨id, fin priority, registeredClients⟩
  | _, _, _ => none

/-- An instance as the backend returns it; `none` is data `JSON.parse` throws on. -/
structure InstanceData where
  id : String
  data : Option Json

namespace RequestHandler

variable (localeCompare : String → String → ℤ)

/-- `getInstances`: an unreadable registration is skipped. -/
def getInstances (handler : RequestHandler) (otherInstances : List InstanceData) : List Registration :=
  handler.getMetadata.registration ::
    otherInstances.filterMap fun other => other.data.bind isElectableRegistration

def compareInstances (a b : Registration) : ℤ :=
  if b.priority < a.priority then -1
  else if a.priority < b.priority then 1
  else localeCompare b.id a.id

def getClientsBefore (handler : RequestHandler) (otherInstances : List InstanceData) : List Json :=
  let sorted := (handler.getInstances otherInstances).mergeSort fun a b =>
    decide (compareInstances localeCompare a b ≤ 0)
  (sorted.takeWhile fun registration => decide (registration.id ≠ handler.id)).flatMap Registration.registeredClients

/-- `clientsBefore.has(name)`. -/
def clientsBeforeHas (clientsBefore : List Json) (name : String) : Bool :=
  clientsBefore.any fun client => match client with
    | .str other => decide (other = name)
    | _ => false

def newRole (clientsBefore : List Json) (name : String) (client : RoleClient) : ClientRole :=
  let borrowsWholeQueue := isSharedLimitOnly client.rateLimit
  if clientsBeforeHas clientsBefore name || borrowsWholeQueue then .worker else .controller

/-- The roles of the handler's clients, and whether one changed. -/
def updateClientRoles (handler : RequestHandler) (otherInstances : List InstanceData) : RequestHandler × Bool :=
  let clientsBefore := handler.getClientsBefore localeCompare otherInstances
  let elected := fun c : String × RoleClient => (c.1, { c.2 with role := newRole clientsBefore c.1 c.2 })
  ({ handler with
      clients := handler.clients.map elected
      distinct := by
        rw [List.map_map]
        exact handler.distinct },
    handler.clients.any fun c => c.2.role ≠ newRole clientsBefore c.1 c.2)

/-- The handler drains the queue of the client named `name` once it has elected. -/
def Controls (handler : RequestHandler) (otherInstances : List InstanceData) (name : String) : Prop :=
  ∃ client, (name, client) ∈ (handler.updateClientRoles localeCompare otherInstances).1.clients ∧
    client.role = .controller

/-- What a peer finds stored for the handler. -/
def instanceData (handler : RequestHandler) : InstanceData := ⟨handler.id, some handler.getMetadata.json⟩

/-- The registrations `handler` reads, in whatever order the set of instances has. -/
def Reads (handlers : List RequestHandler) (handler : RequestHandler) (otherInstances : List InstanceData) : Prop :=
  otherInstances.Perm ((handlers.filter fun other => decide (other.id ≠ handler.id)).map instanceData)

/-- `localeCompare` is a strict total order on `ids`. -/
structure TotalOn (ids : List String) : Prop where
  antisymm : ∀ a ∈ ids, ∀ b ∈ ids, localeCompare a b < 0 ↔ 0 < localeCompare b a
  trans : ∀ a ∈ ids, ∀ b ∈ ids, ∀ c ∈ ids, localeCompare a b < 0 → localeCompare b c < 0 → localeCompare a c < 0
  total : ∀ a ∈ ids, ∀ b ∈ ids, a ≠ b → localeCompare a b ≠ 0

/-- Replicas that can be told apart and ordered. -/
structure Fleet (handlers : List RequestHandler) : Prop where
  distinct : (handlers.map RequestHandler.id).Nodup
  finite : ∀ handler ∈ handlers, handler.priority.isFinite = true
  total : TotalOn localeCompare (handlers.map RequestHandler.id)

/-- `a` is sorted before `b`. -/
def Outranks (a b : RequestHandler) : Prop :=
  compareInstances localeCompare a.getMetadata.registration b.getMetadata.registration < 0

section Order

variable {localeCompare : String → String → ℤ} {handlers : List RequestHandler} {a b c : RequestHandler}

theorem isElectableRegistration_json (finite : a.priority.isFinite = true) :
    isElectableRegistration a.getMetadata.json = some a.getMetadata.registration := by
  obtain ⟨q, value⟩ := isFinite_iff.mp finite
  simp [isElectableRegistration, RequestHandlerMetadata.json, RequestHandlerMetadata.registration, Json.field,
    Json.ofNumber, getMetadata, value, List.lookup]

/-- Higher priority first, then by id. -/
theorem compareInstances_fin {p q : ℚ} (left : a.priority = fin p) (right : b.priority = fin q) :
    compareInstances localeCompare a.getMetadata.registration b.getMetadata.registration =
      if q < p then -1 else if p < q then 1 else localeCompare b.id a.id := by
  simp only [compareInstances, RequestHandlerMetadata.registration, getMetadata, left, right, fin_lt_fin]

variable (fleet : Fleet localeCompare handlers)
include fleet

theorem Fleet.injective (ha : a ∈ handlers) (hb : b ∈ handlers) (same : a.id = b.id) : a = b :=
  List.inj_on_of_nodup_map fleet.distinct ha hb same

theorem Fleet.compare_self (ha : a ∈ handlers) :
    compareInstances localeCompare a.getMetadata.registration a.getMetadata.registration = 0 := by
  obtain ⟨p, value⟩ := isFinite_iff.mp (fleet.finite a ha)
  have mem := List.mem_map_of_mem (f := RequestHandler.id) ha
  have flip := fleet.total.antisymm a.id mem a.id mem
  rw [compareInstances_fin value value, if_neg (lt_irrefl p), if_neg (lt_irrefl p)]
  omega

theorem Fleet.compare_antisymm (ha : a ∈ handlers) (hb : b ∈ handlers) :
    compareInstances localeCompare a.getMetadata.registration b.getMetadata.registration < 0 ↔
      0 < compareInstances localeCompare b.getMetadata.registration a.getMetadata.registration := by
  obtain ⟨p, left⟩ := isFinite_iff.mp (fleet.finite a ha)
  obtain ⟨q, right⟩ := isFinite_iff.mp (fleet.finite b hb)
  rw [compareInstances_fin left right, compareInstances_fin right left]
  rcases lt_trichotomy p q with less | same | more
  · simp [less, not_lt.mpr less.le]
  · subst same
    rw [if_neg (lt_irrefl p), if_neg (lt_irrefl p), if_neg (lt_irrefl p), if_neg (lt_irrefl p)]
    exact fleet.total.antisymm b.id (List.mem_map_of_mem hb) a.id (List.mem_map_of_mem ha)
  · simp [more, not_lt.mpr more.le]

theorem Fleet.compare_ne (ha : a ∈ handlers) (hb : b ∈ handlers) (ne : a.id ≠ b.id) :
    compareInstances localeCompare a.getMetadata.registration b.getMetadata.registration ≠ 0 := by
  obtain ⟨p, left⟩ := isFinite_iff.mp (fleet.finite a ha)
  obtain ⟨q, right⟩ := isFinite_iff.mp (fleet.finite b hb)
  rw [compareInstances_fin left right]
  split_ifs
  · omega
  · omega
  · exact fleet.total.total b.id (List.mem_map_of_mem hb) a.id (List.mem_map_of_mem ha) ne.symm

theorem Fleet.outranks_trans (ha : a ∈ handlers) (hb : b ∈ handlers) (hc : c ∈ handlers)
    (first : Outranks localeCompare a b) (second : Outranks localeCompare b c) : Outranks localeCompare a c := by
  obtain ⟨p, left⟩ := isFinite_iff.mp (fleet.finite a ha)
  obtain ⟨q, middle⟩ := isFinite_iff.mp (fleet.finite b hb)
  obtain ⟨r, right⟩ := isFinite_iff.mp (fleet.finite c hc)
  rw [Outranks, compareInstances_fin left middle] at first
  rw [Outranks, compareInstances_fin middle right] at second
  rw [Outranks, compareInstances_fin left right]
  have ids :=
    fleet.total.trans c.id (List.mem_map_of_mem hc) b.id (List.mem_map_of_mem hb) a.id (List.mem_map_of_mem ha)
  have lower : ∀ {x y : ℚ} {z : ℤ}, (if y < x then (-1 : ℤ) else if x < y then 1 else z) < 0 →
      y < x ∨ y = x ∧ z < 0 := by
    intro x y z below
    rcases lt_trichotomy y x with less | same | more
    · exact .inl less
    · rw [same, if_neg (lt_irrefl x), if_neg (lt_irrefl x)] at below
      exact .inr ⟨same, below⟩
    · rw [if_neg (not_lt.mpr more.le), if_pos more] at below
      omega
  rcases lower first with more | ⟨rfl, tie⟩
  · rcases lower second with more' | ⟨rfl, -⟩
    · rw [if_pos (more'.trans more)]
      norm_num
    · rw [if_pos more]
      norm_num
  · rcases lower second with more' | ⟨rfl, tie'⟩
    · rw [if_pos more']
      norm_num
    · rw [if_neg (lt_irrefl _), if_neg (lt_irrefl _)]
      exact ids tie' tie

theorem Fleet.outranks_irrefl (ha : a ∈ handlers) : ¬ Outranks localeCompare a a := by
  rw [Outranks, fleet.compare_self ha]
  exact lt_irrefl 0

theorem Fleet.outranks_asymm (ha : a ∈ handlers) (hb : b ∈ handlers) (first : Outranks localeCompare a b) :
    ¬ Outranks localeCompare b a := fun second =>
      fleet.outranks_irrefl ha (fleet.outranks_trans ha hb ha first second)

theorem Fleet.not_outranks (ha : a ∈ handlers) (hb : b ∈ handlers) :
    ¬ Outranks localeCompare b a ↔
      compareInstances localeCompare a.getMetadata.registration b.getMetadata.registration ≤ 0 := by
  rw [Outranks, fleet.compare_antisymm hb ha, not_lt]

theorem Fleet.outranks_total (ha : a ∈ handlers) (hb : b ∈ handlers) (ne : a ≠ b) :
    Outranks localeCompare a b ∨ Outranks localeCompare b a := by
  have apart := fleet.compare_ne ha hb fun same => ne (fleet.injective ha hb same)
  have flip := fleet.compare_antisymm hb ha
  rcases lt_or_gt_of_ne apart with less | more
  · exact .inl less
  · exact .inr (flip.mpr more)

/-- The order the registrations are sorted in. -/
theorem Fleet.sorted {registrations : List Registration}
    (held : ∀ r ∈ registrations, ∃ h ∈ handlers, h.getMetadata.registration = r) :
    (registrations.mergeSort fun a b => decide (compareInstances localeCompare a b ≤ 0)).Pairwise
      fun a b => compareInstances localeCompare a b ≤ 0 := by
  have pairwise : (registrations.mergeSort fun a b => decide (compareInstances localeCompare a b ≤ 0)).Pairwise
      fun a b => decide (compareInstances localeCompare a b ≤ 0) = true := by
    refine Precedence.pairwise_mergeSort_of_mem ?_ ?_
    · rintro r hr s hs t ht first second
      obtain ⟨a, ha, rfl⟩ := held r hr
      obtain ⟨b, hb, rfl⟩ := held s hs
      obtain ⟨c, hc, rfl⟩ := held t ht
      rw [decide_eq_true_eq, ← fleet.not_outranks ha hb] at first
      rw [decide_eq_true_eq, ← fleet.not_outranks hb hc] at second
      rw [decide_eq_true_eq, ← fleet.not_outranks ha hc]
      intro ahead
      by_cases same : a = b
      · exact second (same ▸ ahead)
      · rcases fleet.outranks_total ha hb same with before | after
        · exact second (fleet.outranks_trans hc ha hb ahead before)
        · exact first after
    · rintro r hr s hs
      obtain ⟨a, ha, rfl⟩ := held r hr
      obtain ⟨b, hb, rfl⟩ := held s hs
      rw [Bool.or_eq_true, decide_eq_true_eq, decide_eq_true_eq, ← fleet.not_outranks ha hb,
        ← fleet.not_outranks hb ha]
      exact not_and_or.mp fun both => fleet.outranks_asymm hb ha both.1 both.2
  exact pairwise.imp fun le => of_decide_eq_true le

variable {handler : RequestHandler} {otherInstances : List InstanceData}

/-- The instances of an election are the whole fleet, each once. -/
theorem Fleet.instances (mem : handler ∈ handlers) (reads : Reads handlers handler otherInstances) :
    (handler.getInstances otherInstances).Perm (handlers.map fun h => h.getMetadata.registration) := by
  have decoded : (otherInstances.filterMap fun other => other.data.bind isElectableRegistration).Perm
      ((handlers.filter fun other => decide (other.id ≠ handler.id)).map fun h => h.getMetadata.registration) := by
    refine (reads.filterMap _).trans (List.Perm.of_eq ?_)
    rw [List.filterMap_map, ← List.filterMap_eq_map]
    refine List.filterMap_congr fun h held => ?_
    exact isElectableRegistration_json (fleet.finite h (List.mem_of_mem_filter held))
  have parted : (handler :: handlers.filter fun other => decide (other.id ≠ handler.id)).Perm handlers := by
    have nodup : handlers.Nodup := List.Nodup.of_map _ fleet.distinct
    refine (List.perm_ext_iff_of_nodup ?_ nodup).mpr fun h => ?_
    · refine List.nodup_cons.mpr ⟨?_, nodup.filter _⟩
      simp
    · rw [List.mem_cons, List.mem_filter, decide_eq_true_eq]
      constructor
      · rintro (rfl | ⟨held, -⟩)
        · exact mem
        · exact held
      · intro held
        by_cases same : h.id = handler.id
        · exact .inl (fleet.injective held mem same)
        · exact .inr ⟨held, same⟩
  refine (decoded.cons _).trans ?_
  exact parted.map fun h : RequestHandler => h.getMetadata.registration

/-- Sorted, the registrations are those ahead of this replica, its own, and the rest. -/
theorem Fleet.parts (mem : handler ∈ handlers) {registrations : List Registration}
    (perm : registrations.Perm (handlers.map fun h => h.getMetadata.registration)) :
    ∃ ahead rest, registrations = ahead ++ handler.getMetadata.registration :: rest ∧
      registrations.takeWhile (fun registration => decide (registration.id ≠ handler.id)) = ahead := by
  have split :=
    List.takeWhile_append_dropWhile (p := fun r : Registration => decide (r.id ≠ handler.id)) (l := registrations)
  cases stop : registrations.dropWhile (fun r => decide (r.id ≠ handler.id)) with
  | nil =>
    have all := List.dropWhile_eq_nil_iff.mp stop
    have own := all _ (perm.mem_iff.mpr (List.mem_map_of_mem mem))
    exact absurd rfl (of_decide_eq_true own)
  | cons r rest =>
    have stopped := List.head?_dropWhile_not (fun r : Registration => decide (r.id ≠ handler.id)) registrations
    rw [stop] at stopped
    have own : r.id = handler.id := not_not.mp (of_decide_eq_false stopped)
    have held : r ∈ registrations := by
      rw [← split, stop]
      exact List.mem_append_right _ (List.mem_cons_self ..)
    obtain ⟨h, member, rfl⟩ := List.mem_map.mp (perm.mem_iff.mp held)
    have this_ := fleet.injective member mem own
    subst this_
    refine ⟨_, rest, ?_, rfl⟩
    rw [← stop, split]

/-- The clients claimed before are those of the replicas that outrank this one. -/
theorem Fleet.clientsBefore (mem : handler ∈ handlers)
    (reads : Reads handlers handler otherInstances) (name : String) :
    clientsBeforeHas (handler.getClientsBefore localeCompare otherInstances) name = true ↔
      ∃ h ∈ handlers, Outranks localeCompare h handler ∧ name ∈ h.clients.map Prod.fst := by
  have perm := fleet.instances mem reads
  have held : ∀ r ∈ handler.getInstances otherInstances, ∃ h ∈ handlers, h.getMetadata.registration = r :=
    fun r hr => List.mem_map.mp (perm.mem_iff.mp hr)
  have pairwise := fleet.sorted held
  have sorted := (List.mergeSort_perm (handler.getInstances otherInstances)
    fun a b => decide (compareInstances localeCompare a b ≤ 0)).trans perm
  rw [getClientsBefore]
  generalize (handler.getInstances otherInstances).mergeSort _ = registrations at pairwise sorted
  obtain ⟨ahead, rest, split, stops⟩ := fleet.parts mem sorted
  rw [stops]
  have known : ∀ r ∈ registrations, ∃ h ∈ handlers, h.getMetadata.registration = r :=
    fun r hr => List.mem_map.mp (sorted.mem_iff.mp hr)
  subst split
  obtain ⟨-, behind, before⟩ := List.pairwise_append.mp pairwise
  constructor
  · intro has
    obtain ⟨client, listed, named⟩ := List.any_eq_true.mp has
    obtain ⟨r, first, listed⟩ := List.mem_flatMap.mp listed
    obtain ⟨h, member, rfl⟩ := known r (List.mem_append_left _ first)
    obtain ⟨other, registered, rfl⟩ := List.mem_map.mp listed
    have same : other = name := of_decide_eq_true named
    subst same
    refine ⟨h, member, ?_, registered⟩
    have apart : h ≠ handler := by
      rintro rfl
      rw [← stops] at first
      have passed := List.all_takeWhile (p := fun r : Registration => decide (r.id ≠ h.id))
        (l := ahead ++ h.getMetadata.registration :: rest)
      exact of_decide_eq_true (List.all_eq_true.mp passed _ first) rfl
    rcases fleet.outranks_total member mem apart with yes | no
    · exact yes
    · exact absurd no ((fleet.not_outranks member mem).mpr (before _ first _ (List.mem_cons_self ..)))
  · rintro ⟨h, member, higher, registered⟩
    have listed : h.getMetadata.registration ∈ ahead := by
      rcases List.mem_append.mp (sorted.mem_iff.mpr (List.mem_map_of_mem member)) with first | later
      · exact first
      · rcases List.mem_cons.mp later with same | later
        · have ids : h.id = handler.id := congrArg Registration.id same
          have this_ := fleet.injective member mem ids
          subst this_
          exact absurd higher (fleet.outranks_irrefl member)
        · have lower := (List.pairwise_cons.mp behind).1 _ later
          exact absurd higher ((fleet.not_outranks mem member).mpr lower)
    refine List.any_eq_true.mpr ⟨.str name, ?_, decide_eq_true rfl⟩
    exact List.mem_flatMap.mpr ⟨_, listed, List.mem_map_of_mem registered⟩

end Order

section Roles

variable {localeCompare : String → String → ℤ} {handlers : List RequestHandler} {handler : RequestHandler}
  {otherInstances : List InstanceData} {name : String}

theorem controls_iff : Controls localeCompare handler otherInstances name ↔
    clientsBeforeHas (handler.getClientsBefore localeCompare otherInstances) name = false ∧
      ∃ client, (name, client) ∈ handler.clients ∧ isSharedLimitOnly client.rateLimit = false := by
  have role : ∀ client : RoleClient, newRole (handler.getClientsBefore localeCompare otherInstances) name client =
      .controller ↔ clientsBeforeHas (handler.getClientsBefore localeCompare otherInstances) name = false ∧
        isSharedLimitOnly client.rateLimit = false := by
    intro client
    rw [newRole]
    cases clientsBeforeHas (handler.getClientsBefore localeCompare otherInstances) name <;>
      cases isSharedLimitOnly client.rateLimit <;> simp
  constructor
  · rintro ⟨elected, mem, controller⟩
    obtain ⟨⟨other, client⟩, held, same⟩ := List.mem_map.mp mem
    cases same
    obtain ⟨first, own⟩ := (role client).mp controller
    exact ⟨first, client, held, own⟩
  · rintro ⟨first, client, held, own⟩
    exact ⟨_, List.mem_map.mpr ⟨(name, client), held, rfl⟩, (role client).mpr ⟨first, own⟩⟩

theorem controls_unshared {client : RoleClient} (held : (name, client) ∈ handler.clients)
    (shared : isSharedLimitOnly client.rateLimit = true) :
    ¬ Controls localeCompare handler otherInstances name := by
  intro controls
  obtain ⟨-, other, held', own⟩ := controls_iff.mp controls
  have same : (name, other) = (name, client) := List.inj_on_of_nodup_map handler.distinct held' held rfl
  cases same
  rw [shared] at own
  cases own

/-- Every replica that reads the same registrations agrees on who drains a
queue, and a client that only borrows one has no controller. -/
theorem exactly_one_controller (fleet : Fleet localeCompare handlers) {seen : RequestHandler → List InstanceData}
    (snapshot : ∀ handler ∈ handlers, Reads handlers handler (seen handler)) :
    (∀ name, (∃ handler ∈ handlers, name ∈ handler.clients.map Prod.fst) →
        (∀ handler ∈ handlers, ∀ client, (name, client) ∈ handler.clients →
          isSharedLimitOnly client.rateLimit = false) →
        ∃! handler, handler ∈ handlers ∧ Controls localeCompare handler (seen handler) name) ∧
      ∀ handler ∈ handlers, ∀ name client, (name, client) ∈ handler.clients →
        isSharedLimitOnly client.rateLimit = true → ¬ Controls localeCompare handler (seen handler) name := by
  refine ⟨fun name registered unshared => ?_,
    fun handler _ name client held shared => controls_unshared held shared⟩
  obtain ⟨top, mem, listed, first⟩ := Precedence.exists_first
    (fun a ha b hb c hc => fleet.outranks_trans (a := a) ha hb hc)
      (fun a ha => fleet.outranks_irrefl (a := a) ha) registered
  refine ⟨top, ⟨mem, controls_iff.mpr ⟨?_, ?_⟩⟩, ?_⟩
  · refine Bool.eq_false_iff.mpr fun has => ?_
    obtain ⟨h, member, higher, registered'⟩ := (fleet.clientsBefore mem (snapshot top mem) name).mp has
    exact first h member registered' higher
  · obtain ⟨⟨_, client⟩, held, rfl⟩ := List.mem_map.mp listed
    exact ⟨client, held, unshared top mem client held⟩
  · rintro other ⟨member, controls⟩
    obtain ⟨unclaimed, client, held, -⟩ := controls_iff.mp controls
    have listed' : name ∈ other.clients.map Prod.fst := List.mem_map_of_mem held
    by_contra apart
    rcases fleet.outranks_total member mem apart with higher | lower
    · exact first other member listed' higher
    · have claimed := (fleet.clientsBefore member (snapshot other member) name).mpr ⟨top, mem, lower, listed⟩
      rw [unclaimed] at claimed
      cases claimed

end Roles

end RequestHandler

/-- `localeCompare` on one-letter ids. -/
def compareTexts (a b : String) : ℤ := if a < b then -1 else if b < a then 1 else 0

def replica (id : String) (priority : JsNumber) (clients : List (String × List RateLimitType))
    (distinct : (clients.map Prod.fst).Nodup) : RequestHandler where
  id := id
  status := .started
  priority := priority
  clients := clients.map fun c => (c.1, ⟨c.2, .worker⟩)
  distinct := by
    rw [List.map_map]
    exact distinct

/-- Three replicas, two of one priority, with overlapping clients, one of them borrowed. -/
def threeReplicas : List RequestHandler :=
  [replica "a" 1 [("orders", [.requestLimit]), ("search", [.sharedLimit])] (by decide),
    replica "b" 2 [("search", [.sharedLimit])] (by decide),
    replica "c" 1 [("orders", [.requestLimit]), ("billing", [.noLimit])] (by decide)]

/-- What a replica of `threeReplicas` reads of the others. -/
def seenOfThree (handler : RequestHandler) : List InstanceData :=
  (threeReplicas.filter fun other => decide (other.id ≠ handler.id)).map RequestHandler.instanceData

theorem exactly_one_controller_of_three :
    ∃! handler, handler ∈ threeReplicas ∧
      RequestHandler.Controls compareTexts handler (seenOfThree handler) "orders" := by
  have fleet : RequestHandler.Fleet compareTexts threeReplicas := by
    refine ⟨by decide, by decide, by decide, by decide, by decide⟩
  have snapshot : ∀ handler ∈ threeReplicas, RequestHandler.Reads threeReplicas handler (seenOfThree handler) :=
    fun handler _ => List.Perm.refl _
  refine (RequestHandler.exactly_one_controller fleet snapshot).1 "orders" (by decide) ?_
  simp [threeReplicas, replica, isSharedLimitOnly]

end Dianemo
