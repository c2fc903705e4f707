import Dianemo.Focus

namespace Dianemo

open JsNumber

section Erasing

variable {β : String → Type}

theorem eraseAll_keys (m : AList β) (gone : List String) : (eraseAll m gone).keys = m.keys.filter (· ∉ gone) := by
  induction gone generalizing m with
  | nil => simp [eraseAll]
  | cons member rest ih =>
    have step : eraseAll m (member :: rest) = eraseAll (m.erase member) rest := rfl
    rw [step, ih, AList.keys_erase, m.keys_nodup.erase_eq_filter, List.filter_filter]
    congr 1
    funext k
    rw [Bool.eq_iff_iff]
    simp [and_comm]

theorem eraseAll_lookup (m : AList β) (gone : List String) (k : String) :
    (eraseAll m gone).lookup k = if k ∈ gone then none else m.lookup k := by
  induction gone generalizing m with
  | nil => simp [eraseAll]
  | cons member rest ih =>
    have step : eraseAll m (member :: rest) = eraseAll (m.erase member) rest := rfl
    rw [step, ih]
    by_cases same : k = member
    · subst same
      simp
    · simp [AList.lookup_erase_ne same, same]

theorem mem_eraseAll {m : AList β} {gone : List String} {k : String} : k ∈ eraseAll m gone ↔ k ∈ m ∧ k ∉ gone := by
  rw [AList.mem_keys, eraseAll_keys, List.mem_filter, AList.mem_keys, decide_eq_true_iff]

theorem entries_length_eq_zero {m : AList β} : m.entries.length = 0 ↔ ∀ k, k ∉ m := by
  rw [List.length_eq_zero_iff]
  constructor
  · intro none_ k member
    rw [AList.mem_keys, AList.keys, none_] at member
    cases member
  · intro none_
    have keys : m.keys = [] := List.eq_nil_iff_forall_not_mem.mpr fun k member =>
      none_ k (AList.mem_keys.mpr member)
    exact List.map_eq_nil_iff.mp keys

end Erasing

theorem mem_staleSlots {z : Scores} {expireTime : ℚ} {id : String} :
    id ∈ staleSlots z (fin expireTime) ↔ ∃ taken, z.lookup id = some taken ∧ taken ≤ expireTime := by
  simp only [staleSlots, List.mem_map, List.mem_filter, fin_le_fin, decide_eq_true_eq]
  constructor
  · rintro ⟨⟨id, taken⟩, ⟨member, stale⟩, rfl⟩
    exact ⟨taken, AList.mem_lookup_iff.mpr member, stale⟩
  · rintro ⟨taken, found, stale⟩
    exact ⟨⟨id, taken⟩, ⟨AList.mem_lookup_iff.mp found, stale⟩, rfl⟩

/-- A slot ledger: when each slot was taken, what it costs, and when the two keys lapse. -/
structure Ledger where
  slots : Scores
  cost : String → ℚ
  expiresAt : ℚ

namespace Ledger

/-- What the slots other than `id` cost. -/
def others (l : Ledger) (id : String) : ℚ := ((l.slots.keys.filter (· ≠ id)).map l.cost).sum

def total (l : Ledger) : ℚ := (l.slots.keys.map l.cost).sum

/-- The ledger with the slots of `gone` given up; an empty one is dropped. -/
def without (l : Ledger) (gone : List String) : Option Ledger :=
  if (eraseAll l.slots gone).entries.length = 0 then none else some { l with slots := eraseAll l.slots gone }

def reap (l : Ledger) (expireTime : ℚ) : Option Ledger := l.without (staleSlots l.slots (fin expireTime))

/-- A slot taken in a ledger that may not be there yet. -/
def take (o : Option Ledger) (id : String) (cost expiresAt now : ℚ) : Ledger where
  slots := (o.elim ∅ slots).insert id now
  cost := Function.update (o.elim (fun _ => 0) Ledger.cost) id cost
  expiresAt := expiresAt

def touch (l : Ledger) (id : String) (expiresAt now : ℚ) : Ledger :=
  { l with slots := l.slots.insert id now, expiresAt := expiresAt }

end Ledger

/-- What the two entries of a ledger hold. -/
structure IsLedger (e c : Entry) (l : Ledger) : Prop where
  slots : e.zset = some l.slots
  sorted : e.set = none
  costs : ∃ h : Fields, c.hash = some h ∧
    ∀ id, h.lookup id = if id ∈ l.slots then some (.num (fin (l.cost id))) else none
  hashed : c.set = none ∧ c.zset = none
  lapses : e.expiresAt = some l.expiresAt
  lapsesToo : c.expiresAt = some l.expiresAt

def LedgerAt (s : State) (key : String) (now : ℚ) : Option Ledger → Prop
  | none => s.live key now = none ∧ s.live (costsKey key) now = none
  | some l => ∃ e c, s.live key now = some e ∧ s.live (costsKey key) now = some c ∧ IsLedger e c l

/-- The two keys of a ledger. -/
def ledgerKeys (key : String) : Set String := {key, costsKey key}

section Drops

variable {s : State} {key other : String} {now : ℚ} {e : Entry}

theorem live_dropIfEmpty_ne (ne : other ≠ key) : (s.dropIfEmpty key).live other now = s.live other now := by
  unfold State.dropIfEmpty
  split
  · rfl
  · split
    · exact State.live_congr (State.delete_store_ne ne) now
    · rfl

theorem live_dropIfEmpty_self (found : s.live key now = some e) :
    (s.dropIfEmpty key).live key now = if e.size = some 0 then none else some e := by
  have stored := (State.live_eq_some.mp found).1
  unfold State.dropIfEmpty
  rw [stored]
  simp only
  split
  · exact State.live_delete_self s key now
  · exact found

theorem live_dropIfEmpty_none (absent : s.live key now = none) : (s.dropIfEmpty key).live key now = none := by
  unfold State.dropIfEmpty
  split
  · exact absent
  · split
    · exact State.live_delete_self s key now
    · exact absent

end Drops

section Ledgers

variable {s s' : State} {key : String} {now : ℚ} {o : Option Ledger} {l : Ledger}

theorem LedgerAt.congr (at_ : LedgerAt s key now o) (keeps : Keeps (ledgerKeys key) now s s') :
    LedgerAt s' key now o := by
  have slots := keeps.live key (Or.inl rfl)
  have costs := keeps.live (costsKey key) (Or.inr rfl)
  cases o with
  | none => exact ⟨slots.trans at_.1, costs.trans at_.2⟩
  | some l =>
    obtain ⟨e, c, foundSlots, foundCosts, is⟩ := at_
    exact ⟨e, c, slots.trans foundSlots, costs.trans foundCosts, is⟩

theorem IsLedger.same_members {e c : Entry} (is : IsLedger e c l) {h : Fields}
    (hash : c.hash = some h) (id : String) : id ∈ h ↔ id ∈ l.slots := by
  obtain ⟨h', hash', reads⟩ := is.costs
  cases Option.some.inj (hash.symm.trans hash')
  rw [← AList.lookup_isSome, reads]
  split <;> simp [*]

/-- Slots given up: both entries lose them, and go once nothing is left. -/
theorem LedgerAt.without {e c : Entry} {h : Fields} (slots : s.live key now = some e)
    (costs : s.live (costsKey key) now = some c) (is : IsLedger e c l)
    (hash : c.hash = some h) (gone : List String) :
    LedgerAt ((((s.put key { e with zset := some (eraseAll l.slots gone) }).put (costsKey key)
      { c with hash := some (eraseAll h gone) }).dropIfEmpty key).dropIfEmpty (costsKey key)) key now
      (l.without gone) := by
  have ne := costsKey_ne key
  have alive := (State.live_eq_some.mp slots).2
  have aliveToo := (State.live_eq_some.mp costs).2
  generalize at_ : (s.put key { e with zset := some (eraseAll l.slots gone) }).put (costsKey key)
      { c with hash := some (eraseAll h gone) } = u
  have foundSlots : u.live key now = some { e with zset := some (eraseAll l.slots gone) } := by
    rw [← at_, State.live_congr (State.put_store_ne ne.symm)]
    exact State.live_put_self alive
  have foundCosts : u.live (costsKey key) now = some { c with hash := some (eraseAll h gone) } := by
    rw [← at_]
    exact State.live_put_self aliveToo
  have sizeSlots : ({ e with zset := some (eraseAll l.slots gone) } : Entry).size =
      some (eraseAll l.slots gone).entries.length := by
    simp [Entry.size, is.sorted]
  have sizeCosts : ({ c with hash := some (eraseAll h gone) } : Entry).size =
      some (eraseAll h gone).entries.length := by
    simp [Entry.size, is.hashed.1, is.hashed.2]
  have both : (eraseAll h gone).entries.length = 0 ↔ (eraseAll l.slots gone).entries.length = 0 := by
    simp only [entries_length_eq_zero, mem_eraseAll, is.same_members hash]
  have foundCosts' := (live_dropIfEmpty_ne ne).trans foundCosts
  have first : ((u.dropIfEmpty key).dropIfEmpty (costsKey key)).live key now = _ :=
    (live_dropIfEmpty_ne ne.symm).trans (live_dropIfEmpty_self foundSlots)
  have second : ((u.dropIfEmpty key).dropIfEmpty (costsKey key)).live (costsKey key) now = _ :=
    live_dropIfEmpty_self foundCosts'
  rw [sizeSlots] at first
  rw [sizeCosts] at second
  unfold Ledger.without
  by_cases empty : (eraseAll l.slots gone).entries.length = 0
  · rw [if_pos empty]
    rw [if_pos (congrArg some empty)] at first
    rw [if_pos (congrArg some (both.mpr empty))] at second
    exact ⟨first, second⟩
  · rw [if_neg empty]
    rw [if_neg (fun zero => empty (Option.some.inj zero))] at first
    rw [if_neg (fun zero => empty (both.mp (Option.some.inj zero)))] at second
    refine ⟨_, _, first, second, rfl, is.sorted, ⟨_, rfl, ?_⟩, is.hashed, is.lapses, is.lapsesToo⟩
    obtain ⟨h', hash', reads⟩ := is.costs
    cases Option.some.inj (hash.symm.trans hash')
    intro id
    simp only [eraseAll_lookup, mem_eraseAll, reads]
    by_cases given : id ∈ gone
    · simp [given]
    · simp [given]

theorem LedgerAt.reap (at_ : LedgerAt s key now o) (expireTime : ℚ) :
    LedgerAt (reapConcurrency s key (fin expireTime) now) key now (o.bind (·.reap expireTime)) := by
  cases o with
  | none =>
    simp only [reapConcurrency, at_.1]
    exact at_
  | some l =>
    obtain ⟨e, c, slots, costs, is⟩ := at_
    obtain ⟨h, hash, -⟩ := is.costs
    have kept : ∀ e', (s.put key e').live (costsKey key) now = some c := fun e' =>
      (State.live_congr (State.put_store_ne (costsKey_ne key)) now).trans costs
    simp only [reapConcurrency, slots, is.slots, kept, hash, Option.map_some]
    exact LedgerAt.without slots costs is hash _

theorem LedgerAt.release (at_ : LedgerAt s key now o) (id : String) :
    LedgerAt (releaseSlot s key id now) key now (o.bind (·.without [id])) := by
  have ne := costsKey_ne key
  cases o with
  | none =>
    simp only [releaseSlot, at_.1, at_.2]
    exact ⟨(live_dropIfEmpty_ne ne.symm).trans (live_dropIfEmpty_none at_.1),
      live_dropIfEmpty_none ((live_dropIfEmpty_ne ne).trans at_.2)⟩
  | some l =>
    obtain ⟨e, c, slots, costs, is⟩ := at_
    obtain ⟨h, hash, -⟩ := is.costs
    have kept : ∀ e', (s.put key e').live (costsKey key) now = some c := fun e' =>
      (State.live_congr (State.put_store_ne ne) now).trans costs
    simp only [releaseSlot, slots, is.slots, kept, hash, Option.map_some]
    exact LedgerAt.without slots costs is hash [id]

theorem LedgerAt.take (at_ : LedgerAt s key now o) (id : String) (cost : ℚ) {ttl : ℚ} (positive : 0 < ttl) :
    LedgerAt (s.takeSlot key id (fin cost) ttl now) key now
      (some (Ledger.take o id cost (now + ttl * 1000) now)) := by
  have ne := costsKey_ne key
  have later : now < now + ttl * 1000 := by linarith
  have slots : (s.entry key now).zset.getD ∅ = o.elim ∅ Ledger.slots ∧ (s.entry key now).set = none := by
    cases o with
    | none => simp [State.entry, at_.1]
    | some l =>
      obtain ⟨e, c, found, -, is⟩ := at_
      simp [State.entry, found, is.slots, is.sorted]
  have costs : (∀ other, ((s.entry (costsKey key) now).hash.getD ∅ : Fields).lookup other =
      if other ∈ o.elim ∅ Ledger.slots then some (.num (fin (o.elim (fun _ => 0) Ledger.cost other))) else none) ∧
      (s.entry (costsKey key) now).set = none ∧ (s.entry (costsKey key) now).zset = none := by
    cases o with
    | none => simp [State.entry, at_.2]
    | some l =>
      obtain ⟨e, c, -, found, is⟩ := at_
      obtain ⟨h, hash, reads⟩ := is.costs
      have same : s.entry (costsKey key) now = c := by simp [State.entry, found]
      rw [same, hash]
      exact ⟨reads, is.hashed⟩
  refine ⟨_, _, (State.live_congr (State.put_store_ne ne.symm) now).trans (State.live_put_self (expired_of_lt rfl later)),
    State.live_put_self (expired_of_lt rfl later), ?_, slots.2, ⟨_, rfl, ?_⟩, ?_, rfl, rfl⟩
  · simp only [slots.1, Ledger.take]
  · intro other
    simp only [withFields, List.foldl_cons, List.foldl_nil, entry_put_ne ne, Ledger.take, AList.mem_insert]
    by_cases same : other = id
    · subst same
      simp
    · simp [AList.lookup_insert_ne same, costs.1, same]
  · simp only [entry_put_ne ne]
    exact costs.2

theorem sumCosts_fin {costs : Option Fields} {cost : String → ℚ} {members : List String}
    (reads : ∀ id ∈ members, slotCost costs id = fin (cost id)) :
    sumCosts costs members = fin (members.map cost).sum := by
  have sums : ∀ (start : ℚ), members.foldl (fun total id => total + slotCost costs id) (fin start) =
      fin (start + (members.map cost).sum) := by
    induction members with
    | nil => simp
    | cons id rest ih =>
      intro start
      rw [List.forall_mem_cons] at reads
      rw [List.foldl_cons, reads.1, add_fin, ih reads.2, List.map_cons, List.sum_cons, add_assoc]
  rw [sumCosts, zero_eq, sums 0, zero_add]

theorem IsLedger.slotCost {e c : Entry} (is : IsLedger e c l) {id : String} (member : id ∈ l.slots) :
    slotCost c.hash id = fin (l.cost id) := by
  obtain ⟨h, hash, reads⟩ := is.costs
  rw [Dianemo.slotCost, hash, Option.bind_some, reads, if_pos member]
  rfl

theorem LedgerAt.cost (at_ : LedgerAt s key now o) (id : String) :
    concurrencyCost s key id now = fin (o.elim 0 (·.others id)) := by
  cases o with
  | none => simp [concurrencyCost, State.zset, at_.1]
  | some l =>
    obtain ⟨e, c, slots, costs, is⟩ := at_
    have hash : s.hash (costsKey key) now = c.hash := by simp [State.hash, costs]
    simp only [concurrencyCost, State.zset, slots, Option.bind_some, is.slots, hash]
    refine sumCosts_fin ?_
    intro other member
    exact is.slotCost (AList.mem_keys.mpr (List.mem_filter.mp member).1)

theorem LedgerAt.later {t : ℚ} (at_ : LedgerAt s key now o) (order : now ≤ t) :
    LedgerAt s key t (o.filter fun l => decide (t < l.expiresAt)) := by
  have later := fun k => State.live_later order s k
  cases o with
  | none => exact ⟨by rw [later, at_.1]; rfl, by rw [later, at_.2]; rfl⟩
  | some l =>
    obtain ⟨e, c, slots, costs, is⟩ := at_
    by_cases before : t < l.expiresAt
    · rw [Option.filter_some, if_pos (decide_eq_true before)]
      refine ⟨e, c, ?_, ?_, is⟩
      · rw [later, slots, Option.filter_some_pos]
        simp [Entry.expired, is.lapses, before]
      · rw [later, costs, Option.filter_some_pos]
        simp [Entry.expired, is.lapsesToo, before]
    · rw [Option.filter_some, if_neg (by simpa using before)]
      rw [not_lt] at before
      refine ⟨?_, ?_⟩
      · rw [later, slots, Option.filter_some_neg]
        simp [Entry.expired, is.lapses, before]
      · rw [later, costs, Option.filter_some_neg]
        simp [Entry.expired, is.lapsesToo, before]

end Ledgers

end Dianemo
