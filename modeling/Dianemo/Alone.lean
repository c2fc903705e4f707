import Dianemo.System
import Dianemo.MemberOrder
import Dianemo.Library.Worlds

namespace Dianemo

open JsNumber Resumption

/-- What a client's limits refuse a cost for, while they stay as they are. -/
abbrev Limits := RequestCost → Option CostProblem

/-- A cost that can be spent and that the limits admit. -/
def Client.payable (client : Client) (limits : Limits) (cost : RequestCost) : Bool :=
  !client.unusableCost cost && (limits cost).isNone

section Lone

variable (q : QueueKeys) (client : Client) (limits : Limits) (last : ℚ)

/-- The entries a pass may hand out, in their order, but for those whose cost is never to be admitted. -/
def waiting (s : State) (now : ℚ) : List String :=
  (s.sorted q.queueKey now).filter fun id => mayHandOut q s [] [] now id &&
    (q.item s now id).elim false fun h => client.payable limits (parseStoredCost (h.lookup "cost"))

/-- An entry is claimed while one is waiting ahead of it. -/
def Overtakes (s : State) (now : ℚ) (skipGrantIds skipRequestIds : List String) : Prop :=
  ∃ id, nextId q s skipGrantIds skipRequestIds now = some id ∧
    ∃ other ∈ (s.sorted q.queueKey now).takeWhile (· ≠ id), other ∈ waiting q client limits s now

/-- A controller's pass, alone with its queue: requests may join it and anything
may happen to budgets and freezes, but nobody else claims, removes or updates an entry. -/
def loneRuns : Timed.Machine ℚ (System Unit) (Event Unit) where
  step now e sys := sys.step q (fun _ => client) now e
  allowed now e sys := now ≤ last ∧ match e with
    | .pass _ _ outlook => ∀ c next, sys.program (fun _ => client) () = .call c next →
      c.Apart q client now sys.store ∧ ∀ cost, c = .costProblem cost → outlook.costProblem = limits cost
    | .add request _ => PlainId request.requestId ∧ request.requestId ∉ sys.record.used
    | .elsewhere after => Keeps q.keys now sys.store after
    | _ => False

/-- The pass at its start, on the queue it finds. -/
def System.lone (store : State) (clock : ℚ) : System Unit :=
  { System.start (fun _ => client) store clock with
    record := { (Record.start : Record Unit) with used := store.sorted q.queueKey clock } }

/-- The ids handed over so far, in order. -/
def System.handedOver (sys : System Unit) : List String :=
  (sys.record.slots.map fun a => a.request.requestId).reverse

/-- The store around one pass, with the ids that were in the queue so far and
those handed over, the last one first. -/
structure Scene where
  store : State
  clock : ℚ
  known : List String
  handed : List String

def System.scene (sys : System Unit) : Scene where
  store := sys.store
  clock := sys.clock
  known := sys.record.used
  handed := sys.record.slots.map fun a => a.request.requestId

namespace Scene

variable (w : Scene)

def handedAfter : Call → List String
  | .requestReady request => request.requestId :: w.handed
  | _ => w.handed

/-- A call of the pass, and what it leaves. -/
def call (fate : Fate) (outlook : Outlook) (now : ℚ) (c : Call) : Except DrainError (Reply c) × Scene :=
  let out := c.exec q client outlook now w.store
  let took := decide (fate ≠ .failedBefore) || c.isLocal
  (if fate = .answered ∨ c.isLocal = true then out.1 else .error .failed,
    { store := if took then out.2 else w.store
      clock := now
      known := w.known
      handed := if took then w.handedAfter c else w.handed })

/-- `addRequest` of an owner. -/
def add (request : QueuedRequest) (ttl : JsNumber) (now : ℚ) : Scene :=
  let out := (addRequest q request ttl now).run w.store
  { w with store := out.2, clock := now, known := if out.1 = .ok true then
    request.requestId :: w.known else w.known }

end Scene

/-- What may go on around the pass. -/
inductive Aside : Scene → Scene → Prop
  | elsewhere {w after now} : w.clock ≤ now → now ≤ last → Keeps q.keys now w.store after →
      Aside w { w with store := after, clock := now }
  | add {w request ttl now} : w.clock ≤ now → now ≤ last → PlainId request.requestId → request.requestId ∉ w.known →
      Aside w (w.add q request ttl now)

/-- The world of a lone pass: it must claim nothing out of turn and hand over the line `L` from the front. -/
def loneWorld (L : List String) : World Call Reply DrainError Scene where
  allows w
    | .getNextRequest skipGrantIds skipRequestIds => ∀ w₁ now, Relation.ReflTransGen (Aside q last) w w₁ → w₁.clock ≤ now →
        now ≤ last → ¬ Overtakes q client limits w₁.store now skipGrantIds skipRequestIds
    | .requestReady request => (request.requestId :: w.handed).reverse.filter (· ∈ L) <+: L
    | _ => True
  answers w c reply w' := ∃ w₁ now fate outlook, Relation.ReflTransGen (Aside q last) w w₁ ∧
    w₁.clock ≤ now ∧ now ≤ last ∧
    c.Apart q client now w₁.store ∧ (∀ cost, c = .costProblem cost → outlook.costProblem = limits cost) ∧
    (reply, w') = w₁.call q client fate outlook now c

end Lone

section Stays

variable {q : QueueKeys} {last now t : ℚ} {s s' : State} {id other : String} {P P' : Fields → Prop}

/-- The entry is there, stays there until `last`, and reads as `P` says. -/
def Stays (q : QueueKeys) (last : ℚ) (s : State) (now : ℚ) (id : String) (P : Fields → Prop) : Prop :=
  ∃ e h, s.live (q.metadataKey id) now = some e ∧ e.expired last = false ∧ e.hash = some h ∧ P h

namespace Stays

theorem mono (weaker : ∀ h, P h → P' h) (stays : Stays q last s now id P) : Stays q last s now id P' := by
  obtain ⟨e, h, live, lasts, hash, holds⟩ := stays
  exact ⟨e, h, live, lasts, hash, weaker h holds⟩

theorem item (stays : Stays q last s now id P) : ∃ h, q.item s now id = some h ∧ P h := by
  obtain ⟨e, h, live, -, hash, holds⟩ := stays
  exact ⟨h, by rw [QueueKeys.item, State.hash, live, Option.bind_some, hash], holds⟩

theorem congr (same : s'.live (q.metadataKey id) now = s.live (q.metadataKey id) now)
    (stays : Stays q last s now id P) : Stays q last s' now id P := by
  obtain ⟨e, h, live, rest⟩ := stays
  exact ⟨e, h, same.trans live, rest⟩

theorem later (stays : Stays q last s t id P) (order : t ≤ now) (before : now ≤ last) :
    Stays q last s now id P := by
  obtain ⟨e, h, live, lasts, rest⟩ := stays
  refine ⟨e, h, ?_, lasts, rest⟩
  have fresh : e.expired now = false := by
    cases lapses : e.expiresAt with
    | none => simp [Entry.expired, lapses]
    | some deadline =>
      simp only [Entry.expired, lapses, decide_eq_false_iff_not, not_le] at lasts ⊢
      exact before.trans_lt lasts
  rw [State.live_later order, live]
  simp [Option.filter, fresh]

/-- A write to the entry itself. -/
theorem write {fields : List (String × Field)} (stays : Stays q last s now id P)
    (writes : ∀ h, P h → P' (withFields h fields)) :
    Stays q last (s.setFields (q.metadataKey id) now fields) now id P' := by
  obtain ⟨e, h, live, lasts, hash, holds⟩ := stays
  refine ⟨{ e with hash := some (withFields h fields) }, withFields h fields, ?_, lasts, rfl, writes h holds⟩
  rw [State.live_setFields live, hash, Option.getD_some]

theorem erase {field : String} (stays : Stays q last s now id P) (erases : ∀ h, P h → P' (h.erase field)) :
    Stays q last (s.eraseField (q.metadataKey id) now field) now id P' := by
  obtain ⟨e, h, live, lasts, hash, holds⟩ := stays
  refine ⟨{ e with hash := some (h.erase field) }, h.erase field, ?_, lasts, rfl, erases h holds⟩
  have fresh : ({ e with hash := some (h.erase field) } : Entry).expired now = false :=
    (State.live_eq_some.mp live).2
  rw [State.eraseField, live]
  dsimp only
  rw [hash, Option.map_some, State.live_put_self fresh]

end Stays

/-- Once an entry can be claimed it can be claimed ever after. -/
theorem claimable_later {status claimedAt : Option Field}
    (free : claimable status claimedAt t = true) (order : t ≤ now) :
    claimable status claimedAt now = true := by
  unfold claimable at free ⊢
  split at free
  · rename_i waits
    rw [if_pos waits]
  · rename_i waits
    rw [if_neg waits]
    split at free
    · cases free
    · rename_i held
      rw [if_neg held]
      unfold claimLapsed at free ⊢
      simp only [decide_eq_true_eq] at free ⊢
      cases stamp : parseStoredNumber claimedAt nan with
      | fin x =>
        simp only [stamp, sub_fin, fin_le_fin] at free ⊢
        linarith
      | posInf =>
        rw [stamp] at free
        cases free
      | negInf => exact (rfl : (fin queueClaimLeaseMs).le (fin now - negInf) = true)
      | nan =>
        rw [stamp] at free
        cases free

end Stays

section Line

variable (q : QueueKeys) (client : Client) (limits : Limits) (last : ℚ) (L : List String)

/-- An entry free to be claimed, at a cost that can be admitted. -/
def Open (now : ℚ) (h : Fields) : Prop :=
  claimable (h.lookup "status") (h.lookup "claimedAt") now = true ∧ (toQueued h).isSome = true ∧
    client.payable limits (parseStoredCost (h.lookup "cost")) = true

/-- The same entry under a claim made at `since`. -/
def Held (since : ℚ) (h : Fields) : Prop :=
  h.lookup "status" = some (.text "inProgress") ∧ h.lookup "claimedAt" = some (.num (fin since)) ∧
    (toQueued h).isSome = true ∧ client.payable limits (parseStoredCost (h.lookup "cost")) = true

/-- An entry handed over. -/
def Shut (h : Fields) : Prop :=
  h.lookup "status" = some (.text "inProgress") ∧ h.lookup "claimedAt" = none

/-- The line `L` is handed over down to `rest`, which but for the entry the pass is busy with still waits. -/
structure InLine (w : Scene) (rest : List String) (busy : Option String) : Prop where
  tidy : Tidy q w.clock w.store
  before : w.clock ≤ last
  nodup : L.Nodup
  known : ∀ id ∈ w.store.sorted q.queueKey w.clock, id ∈ w.known
  plain : ∀ id ∈ L, PlainId id ∧ id ∈ w.known
  line : (w.store.sorted q.queueKey w.clock).filter (· ∈ L) = L ∨
    (w.store.sorted q.queueKey w.clock).filter (· ∈ L) = []
  handed : w.handed.reverse.filter (· ∈ L) ++ rest = L
  shut : ∀ id ∈ L, id ∉ rest → Stays q last w.store w.clock id Shut
  waits : ∀ id ∈ rest, busy ≠ some id → Stays q last w.store w.clock id (Open client limits w.clock)

/-- What the pass skips it was told can never be admitted. -/
def Skips (w : Scene) (l : PassLocals) : Prop :=
  l.blockedGrantIds = [] ∧ ∀ id ∈ l.skippedRequestIds, PlainId id ∧ id ∈ w.known ∧
    ∀ h, q.item w.store w.clock id = some h → client.payable limits (parseStoredCost (h.lookup "cost")) = false

/-- The pass is busy with a claim. -/
structure Amid (w : Scene) (rest : List String) (request : QueuedRequest) : Prop where
  inLine : InLine q client limits last L w rest (some request.requestId)
  plain : PlainId request.requestId
  known : request.requestId ∈ w.known
  costed : ∀ h, q.item w.store w.clock request.requestId = some h → parseStoredCost (h.lookup "cost") = request.cost
  front : request.requestId ∈ L → (∃ behind, rest = request.requestId :: behind) ∧
    client.payable limits request.cost = true

end Line

section Aside

variable {q : QueueKeys} {client : Client} {limits : Limits} {last : ℚ} {L rest : List String} {w w' : Scene}
  {busy : Option String} {l : PassLocals} {request : QueuedRequest}

theorem Open.later {t now : ℚ} {h : Fields} (open_ : Open client limits t h) (order : t ≤ now) :
    Open client limits now h :=
  ⟨claimable_later open_.1 order, open_.2⟩

theorem sorted_later {t now : ℚ} (order : t ≤ now) (s : State) (key : String) :
    s.sorted key now = [] ∨ s.sorted key now = s.sorted key t := by
  rcases s.zset_later order key with none_ | same
  · exact .inl (by rw [State.sorted, none_])
  · exact .inr (by rw [State.sorted, same, State.sorted])

/-- Time passes and the rest of the store changes. -/
theorem InLine.elsewhere {after : State} {now : ℚ}
    (inLine : InLine q client limits last L w rest busy) (order : w.clock ≤ now)
    (before : now ≤ last) (keeps : Keeps q.keys now w.store after) :
    InLine q client limits last L { w with store := after, clock := now } rest busy := by
  have entries : ∀ id, after.live (q.metadataKey id) now = w.store.live (q.metadataKey id) now :=
    fun id => keeps.live _ (QueueKeys.metadataKey_mem id)
  have queue : after.sorted q.queueKey now = [] ∨
      after.sorted q.queueKey now = w.store.sorted q.queueKey w.clock := by
    rw [State.sorted_congr (keeps.live _ QueueKeys.queueKey_mem)]
    exact sorted_later order _ _
  have edit : Edit q ∅ now w.store after := .elsewhere keeps
  refine ⟨edit.tidy (inLine.tidy.later order), before, inLine.nodup, ?_, inLine.plain, ?_,
    inLine.handed, ?_, ?_⟩
  · intro id member
    rcases queue with none_ | same
    · exact absurd (none_ ▸ member) (List.not_mem_nil)
    · exact inLine.known id (same ▸ member)
  · rcases queue with none_ | same
    · exact .inr (by simp [none_])
    · simp only [same]
      exact inLine.line
  · intro id member out
    exact ((inLine.shut id member out).later order before).congr (entries id)
  · intro id member free
    have there := ((inLine.waits id member free).later order before).congr (entries id)
    exact there.mono fun _ open_ => open_.later order

theorem Amid.elsewhere {after : State} {now : ℚ}
    (amid : Amid q client limits last L w rest request) (order : w.clock ≤ now)
    (before : now ≤ last) (keeps : Keeps q.keys now w.store after) :
    Amid q client limits last L { w with store := after, clock := now } rest request where
  inLine := amid.inLine.elsewhere order before keeps
  plain := amid.plain
  known := amid.known
  costed h found := by
    rw [item_keeps keeps] at found
    rcases item_later order w.store request.requestId with gone | same
    · rw [gone] at found
      cases found
    · exact amid.costed h (same.symm.trans found)
  front := amid.front

theorem Skips.elsewhere {after : State} {now : ℚ} (skips : Skips q client limits w l) (order : w.clock ≤ now)
    (keeps : Keeps q.keys now w.store after) : Skips q client limits { w with store := after, clock := now } l := by
  refine ⟨skips.1, ?_⟩
  intro id member
  obtain ⟨plain, known, never⟩ := skips.2 id member
  refine ⟨plain, known, ?_⟩
  intro h found
  rw [item_keeps keeps] at found
  rcases item_later order w.store id with gone | same
  · rw [gone] at found
    cases found
  · exact never h (same.symm.trans found)

/-- An add is refused and changes nothing, or brings in a new id. -/
theorem Scene.add_cases (q : QueueKeys) (w : Scene) (request : QueuedRequest) (ttl : JsNumber) (now : ℚ) :
    w.add q request ttl now = { w with clock := now } ∨ ∃ score seconds, WholeTtl seconds ∧
      w.store.live (q.tombstoneKey request.requestId) now = none ∧ q.item w.store now request.requestId = none ∧
      w.add q request ttl now =
        { w with store := w.store.enqueue q request score seconds now, clock := now, known := request.requestId :: w.known } := by
  rcases addRequest_run q request ttl now w.store
    with ⟨e, run⟩ | ⟨run, -⟩ | ⟨score, seconds, whole, removed, absent, run⟩
  · exact .inl (by simp [Scene.add, run])
  · exact .inl (by simp [Scene.add, run])
  · exact .inr ⟨score, seconds, whole, removed, absent, by simp [Scene.add, run]⟩

theorem sorted_enqueue {s : State} {score ttl now : ℚ} (positive : 0 < ttl) :
    (s.enqueue q request score ttl now).sorted q.queueKey now =
      Scores.sorted (((s.zset q.queueKey now).getD ∅).insert request.requestId score) := by
  rw [State.sorted, State.zset_enqueue positive, Scores.sorted]

theorem sorted_getD (s : State) (now : ℚ) : s.sorted q.queueKey now =
    Scores.sorted ((s.zset q.queueKey now).getD ∅) := by
  unfold State.sorted
  cases s.zset q.queueKey now with
  | none => exact (Scores.sorted_of_empty rfl).symm
  | some z => rfl

/-- Members outside `L` may come and go without a change to the order of those in it. -/
theorem Scores.sorted_filter (z : Scores) (p : String → Bool) :
    (Scores.sorted z).filter p =
      (((z.entries.map fun e => (e.1, e.2)).filter fun e => p e.1).insertionSort State.scoreLe).map Prod.fst := by
  rw [Scores.sorted, List.filter_map]
  exact congrArg _ (Precedence.filter_insertionSort (p := p ∘ Prod.fst) _)

theorem kerase_filter {id : String} {p : String → Bool} (out : p id = false)
    (entries : List (Sigma fun _ : String => ℚ)) :
    ((List.kerase id entries).map fun e => (e.1, e.2)).filter (fun e => p e.1) =
      (entries.map fun e => (e.1, e.2)).filter fun e => p e.1 := by
  induction entries with
  | nil => rfl
  | cons e entries ih =>
    by_cases same : id = e.1
    · subst same
      rw [List.kerase_cons_eq rfl, List.map_cons, List.filter_cons_of_neg (by simp [out])]
    · rw [List.kerase_cons_ne same, List.map_cons, List.map_cons, List.filter_cons, List.filter_cons, ih]

theorem Scores.sorted_erase_filter {id : String} {p : String → Bool} (out : p id = false) (z : Scores) :
    (Scores.sorted (z.erase id)).filter p = (Scores.sorted z).filter p := by
  rw [Scores.sorted_filter, Scores.sorted_filter]
  have entries : (z.erase id).entries = List.kerase id z.entries := rfl
  rw [entries, kerase_filter out]

theorem Scores.sorted_insert_filter {id : String} {score : ℚ} {p : String → Bool}
    (out : p id = false) (z : Scores) :
    (Scores.sorted (z.insert id score)).filter p = (Scores.sorted z).filter p := by
  rw [← Scores.sorted_erase_filter out, erase_insert, Scores.sorted_erase_filter out]

theorem Scores.mem_sorted_insert {id other : String} {score : ℚ} {z : Scores}
    (member : other ∈ Scores.sorted (z.insert id score)) : other = id ∨ other ∈ Scores.sorted z := by
  simp only [Scores.sorted, List.mem_map, List.mem_insertionSort, AList.entries_insert, List.mem_cons] at member ⊢
  obtain ⟨_, ⟨e, new | old, rfl⟩, rfl⟩ := member
  · exact .inl (by rw [new])
  · exact .inr ⟨_, ⟨e, (List.kerase_sublist _ _).subset old, rfl⟩, rfl⟩

theorem Scores.mem_sorted_erase {id other : String} {z : Scores} (member : other ∈ Scores.sorted (z.erase id)) :
    other ∈ Scores.sorted z := by
  simp only [Scores.sorted, List.mem_map, List.mem_insertionSort] at member ⊢
  obtain ⟨_, ⟨e, kept, rfl⟩, rfl⟩ := member
  exact ⟨_, ⟨e, (List.kerase_sublist _ _).subset kept, rfl⟩, rfl⟩

/-- An add reaches none of the entries there were. -/
theorem enqueue_live {s : State} {score ttl now : ℚ} {id : String} (ne : id ≠ request.requestId) :
    (s.enqueue q request score ttl now).live (q.metadataKey id) now = s.live (q.metadataKey id) now :=
  State.live_enqueue_ne (QueueKeys.metadataKey_ne id) (mt QueueKeys.metadataKey_inj.mp ne) now

theorem enqueue_item {s : State} {score ttl now : ℚ} {id : String} (ne : id ≠ request.requestId) :
    q.item (s.enqueue q request score ttl now) now id = q.item s now id := State.hash_congr (enqueue_live ne)

/-- Somebody joins the queue. -/
theorem InLine.enqueue {score ttl : ℚ} (inLine : InLine q client limits last L w rest busy) (whole : WholeTtl ttl) (plain : PlainId request.requestId) (unburied : w.store.live (q.tombstoneKey request.requestId) w.clock = none)
    (absent : q.item w.store w.clock request.requestId = none) (fresh : request.requestId ∉ w.known) :
    InLine q client limits last L { w with
      store := w.store.enqueue q request score ttl w.clock
      known := request.requestId :: w.known } rest busy := by
  have unlisted : decide (request.requestId ∈ L) = false :=
    decide_eq_false fun member => fresh (inLine.plain _ member).2
  have apart : ∀ id ∈ L, id ≠ request.requestId := by
    rintro id member rfl
    exact fresh (inLine.plain _ member).2
  have listed : ∀ id ∈ rest, id ∈ L := by
    intro id member
    rw [← inLine.handed]
    exact List.mem_append_right _ member
  have order : ((w.store.enqueue q request score ttl w.clock).sorted q.queueKey w.clock).filter (· ∈ L) =
      (w.store.sorted q.queueKey w.clock).filter (· ∈ L) := by
    rw [sorted_enqueue whole.pos, Scores.sorted_insert_filter unlisted, sorted_getD]
  have edit : Edit q ∅ w.clock w.store (w.store.enqueue q request score ttl w.clock) :=
    .enqueue whole plain unburied absent
  refine ⟨edit.tidy inLine.tidy, inLine.before, inLine.nodup, ?_, ?_, ?_,
    inLine.handed, ?_, ?_⟩
  · intro id member
    change id ∈ (w.store.enqueue q request score ttl w.clock).sorted q.queueKey w.clock at member
    rw [sorted_enqueue whole.pos] at member
    rcases Scores.mem_sorted_insert member with rfl | old
    · exact List.mem_cons_self
    · rw [← sorted_getD] at old
      exact List.mem_cons_of_mem _ (inLine.known id old)
  · intro id member
    exact ⟨(inLine.plain id member).1, List.mem_cons_of_mem _ (inLine.plain id member).2⟩
  · simp only [order]
    exact inLine.line
  · intro id member out
    exact (inLine.shut id member out).congr (enqueue_live (apart id member))
  · intro id member free
    exact (inLine.waits id member free).congr (enqueue_live (apart id (listed id member)))

theorem Amid.enqueue {joined : QueuedRequest} {score ttl : ℚ} (amid : Amid q client limits last L w rest request)
    (whole : WholeTtl ttl) (plain : PlainId joined.requestId)
    (unburied : w.store.live (q.tombstoneKey joined.requestId) w.clock = none)
    (absent : q.item w.store w.clock joined.requestId = none) (fresh : joined.requestId ∉ w.known) :
    Amid q client limits last L { w with
      store := w.store.enqueue q joined score ttl w.clock
      known := joined.requestId :: w.known } rest request where
  inLine := amid.inLine.enqueue whole plain unburied absent fresh
  plain := amid.plain
  known := List.mem_cons_of_mem _ amid.known
  costed h found := by
    have ne : request.requestId ≠ joined.requestId := fun same => fresh (same ▸ amid.known)
    exact amid.costed h ((enqueue_item ne).symm.trans found)
  front := amid.front

theorem Skips.enqueue {score ttl : ℚ} (skips : Skips q client limits w l) (fresh : request.requestId ∉ w.known) :
    Skips q client limits { w with
      store := w.store.enqueue q request score ttl w.clock
      known := request.requestId :: w.known } l := by
  refine ⟨skips.1, ?_⟩
  intro id member
  obtain ⟨plain, known, never⟩ := skips.2 id member
  refine ⟨plain, List.mem_cons_of_mem _ known, ?_⟩
  intro h found
  have ne : id ≠ request.requestId := fun same => fresh (same ▸ known)
  exact never h ((enqueue_item ne).symm.trans found)

/-- What goes on around the pass does not affect it. -/
def Still (q : QueueKeys) (last : ℚ) (I : Scene → Prop) : Prop := ∀ w w', Aside q last w w' → I w → I w'

theorem Still.run {I : Scene → Prop} (still : Still q last I)
    (aside : Relation.ReflTransGen (Aside q last) w w') (holds : I w) : I w' := by
  induction aside with
  | refl => exact holds
  | tail _ step ih => exact still _ _ step ih

theorem Still.and {I J : Scene → Prop} (first : Still q last I) (second : Still q last J) :
    Still q last fun w => I w ∧ J w :=
  fun w w' step holds => ⟨first w w' step holds.1, second w w' step holds.2⟩

/-- What a change of the rest of the store and an add leave, anything that goes on leaves. -/
theorem still_of {I : Scene → Prop}
    (elsewhere : ∀ w after now, w.clock ≤ now → now ≤ last → Keeps q.keys now w.store after → I w →
      I { w with store := after, clock := now })
    (enqueue : ∀ (w : Scene) (request : QueuedRequest) (score ttl : ℚ), WholeTtl ttl → PlainId request.requestId →
      w.store.live (q.tombstoneKey request.requestId) w.clock = none →
        q.item w.store w.clock request.requestId = none →
      request.requestId ∉ w.known → I w → I { w with
        store := w.store.enqueue q request score ttl w.clock
        known := request.requestId :: w.known }) : Still q last I := by
  intro w w' step holds
  cases step with
  | elsewhere order before keeps => exact elsewhere _ _ _ order before keeps holds
  | @add request ttl now order before plain fresh =>
    have waited := elsewhere _ w.store now order before (Keeps.refl _ _ _) holds
    rcases Scene.add_cases q w request ttl now with same | ⟨score, seconds, whole, unburied, absent, run⟩
    · rw [same]
      exact waited
    · rw [run]
      exact enqueue { w with clock := now } request score seconds whole plain unburied absent fresh waited

theorem inLine_still : Still q last fun w => InLine q client limits last L w rest busy := by
  refine still_of (I := fun w => InLine q client limits last L w rest busy)
    (fun _ _ _ order before keeps inLine => inLine.elsewhere order before keeps) ?_
  intro w request score ttl whole plain unburied absent fresh inLine
  exact inLine.enqueue whole plain unburied absent fresh

theorem amid_still : Still q last fun w => Amid q client limits last L w rest request := by
  refine still_of (I := fun w => Amid q client limits last L w rest request)
    (fun _ _ _ order before keeps amid => amid.elsewhere order before keeps) ?_
  intro w joined score ttl whole plain unburied absent fresh amid
  exact amid.enqueue whole plain unburied absent fresh

theorem skips_still : Still q last fun w => Skips q client limits w l := by
  refine still_of (I := fun w => Skips q client limits w l)
    (fun _ _ _ order _ keeps skips => skips.elsewhere order keeps) ?_
  intro w request score ttl _ _ _ _ fresh skips
  exact skips.enqueue fresh

end Aside

end Dianemo
