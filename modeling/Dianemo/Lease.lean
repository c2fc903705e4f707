import Dianemo.Cap

namespace Dianemo

open JsNumber

/-- A slot as its holder knows it: when it was granted or last touched, and what it was granted for. -/
structure Lease where
  since : ℚ
  cost : ℚ
  deriving DecidableEq

abbrev Leases := String → Option Lease

/-- The leases the callers hold once `call` has reported. -/
def LedgerCall.leases (key : String) (now : ℚ) (report : Bool) (held : Leases) : LedgerCall → Leases
  | .touchConcurrency slotId _ =>
    if report then Function.update held slotId
      ((held slotId).map fun lease => { lease with since := now }) else held
  | call =>
    let kept : Leases := fun id => if id ∈ call.releases key then none else held id
    if report then
      (call.bids key).foldl (fun held b => Function.update held b.slotId (some ⟨now, b.cost.toRat⟩)) kept
    else kept

/-- The lifetimes a call may give the ledger's keys. -/
def LedgerCall.lifetimes (key : String) : LedgerCall → List JsNumber
  | .touchConcurrency _ ttlSeconds => [ttlSeconds]
  | call => (call.bids key).map Bid.ttl

/-- Runs of every ledger operation under one configuration, with the leases they hand out. -/
def leaseRuns (config : ConcurrencyConfig) (key : String) (allowed : ℚ → LedgerCall → State → Prop) :
    Timed.Machine ℚ (State × Leases) LedgerCall where
  step now call s := ((call.exec key now s.1).2, call.leases key now (call.exec key now s.1).1 s.2)
  allowed now call s := (∀ b ∈ call.bids key, b.config = config) ∧ call.Apart key now s.1 ∧ allowed now call s.1

/-- Those whose every claim and touch gives the keys the day the operations default to. -/
def dayRuns (config : ConcurrencyConfig) (key : String) : Timed.Machine ℚ (State × Leases) LedgerCall :=
  leaseRuns config key fun _ call _ => ∀ ttl ∈ call.lifetimes key, ttl = 86400

/-- Those whose every claim and touch gives the keys at least the lease's length. -/
def coveredRuns (config : ConcurrencyConfig) (key : String) : Timed.Machine ℚ (State × Leases) LedgerCall :=
  leaseRuns config key fun _ call _ => ∀ ttl ∈ call.lifetimes key, ∀ lifetime,
    normalizeStateTtlSeconds ttl = .ok lifetime →
    config.requestTtl.toRat ≤ lifetime * 1000

/-- The lease has not lapsed at `now`. -/
def Leases.Unlapsed (config : ConcurrencyConfig) (now : ℚ) (held : Leases) (id : String) : Prop :=
  ∃ lease, held id = some lease ∧ now - lease.since < config.requestTtl.toRat

def Leases.cost (held : Leases) (id : String) : ℚ := (held id).elim 0 Lease.cost

/-- Every unlapsed lease is counted by a claim on the ledger at `now`, and together they stay under the ceiling. -/
structure Honoured (config : ConcurrencyConfig) (key : String) (now : ℚ) (s : State) (held : Leases) : Prop where
  counted : ∀ (ids : Finset String) (other : String), other ∉ ids → (∀ id ∈ ids, held.Unlapsed config now id) →
    fin (∑ id ∈ ids, held.cost id) ≤
      concurrencyCost (reapConcurrency s key (fin now - config.requestTtl) now) key other now
  total : ∀ ids : Finset String, (∀ id ∈ ids, held.Unlapsed config now id) →
    fin (∑ id ∈ ids, held.cost id) ≤ config.maxConcurrency

/-- The ledger and the leases match, lapsed ones apart. -/
structure Ledger.Leased (span t : ℚ) (o : Option Ledger) (held : Leases) : Prop where
  slot : ∀ l id since, o = some l → l.slots.lookup id = some since →
    held id = some ⟨since, l.cost id⟩ ∧ since ≤ t ∧ since + span ≤ l.expiresAt
  lease : ∀ id lease, held id = some lease →
    (∃ l, o = some l ∧ l.slots.lookup id = some lease.since) ∨ lease.since + span ≤ t

section Leases

variable {span t now : ℚ} {o : Option Ledger} {held : Leases}

theorem Ledger.Leased.later (leased : Ledger.Leased span t o held) (order : t ≤ now) :
    Ledger.Leased span now (o.filter fun l => decide (now < l.expiresAt)) held where
  slot l id since found at_ := by
    obtain ⟨same, past, lasts⟩ := leased.slot l id since (Option.filter_eq_some_iff.mp found).1 at_
    exact ⟨same, past.trans order, lasts⟩
  lease id lease found := by
    rcases leased.lease id lease found with ⟨l, there, at_⟩ | lapsed
    · by_cases alive : now < l.expiresAt
      · exact Or.inl ⟨l, Option.filter_eq_some_iff.mpr ⟨there, decide_eq_true alive⟩, at_⟩
      · obtain ⟨-, -, lasts⟩ := leased.slot l id lease.since there at_
        exact Or.inr (lasts.trans (not_lt.mp alive))
    · exact Or.inr (lapsed.trans order)

theorem Ledger.without_lookup {l rest : Ledger} {gone : List String}
    (left : l.without gone = some rest) (id : String) :
    rest.slots.lookup id = (if id ∈ gone then none else l.slots.lookup id) ∧ rest.cost = l.cost ∧
      rest.expiresAt = l.expiresAt := by
  unfold Ledger.without at left
  split at left
  · cases left
  · cases left
    exact ⟨eraseAll_lookup _ _ _, rfl, rfl⟩

theorem Ledger.without_none {l : Ledger} {gone : List String} (left : l.without gone = none)
    {id : String} {since : ℚ} (found : l.slots.lookup id = some since) : id ∈ gone := by
  unfold Ledger.without at left
  split at left
  · rename_i empty
    by_contra kept
    refine entries_length_eq_zero.mp empty id (mem_eraseAll.mpr ⟨?_, kept⟩)
    rw [← AList.lookup_isSome, found]
    rfl
  · cases left

/-- Giving up slots whose leases are over, or have been given up with them. -/
theorem Ledger.Leased.without (leased : Ledger.Leased span t o held) (gone : Ledger → List String) {kept : Leases}
    (same : ∀ id l, o = some l → id ∉ gone l → kept id = held id)
    (fewer : ∀ id lease, kept id = some lease → held id = some lease)
    (ended : ∀ l id lease, o = some l → id ∈ gone l → l.slots.lookup id = some lease.since → kept id = some lease →
      lease.since + span ≤ t) :
    Ledger.Leased span t (o.bind fun l => l.without (gone l)) kept where
  slot rest id since found at_ := by
    obtain ⟨l, there, left⟩ := Option.bind_eq_some_iff.mp found
    obtain ⟨reads, costs, lapses⟩ := Ledger.without_lookup left id
    rw [reads] at at_
    split at at_
    · cases at_
    · rename_i stays
      rw [costs, lapses, same id l there stays]
      exact leased.slot l id since there at_
  lease id lease found := by
    rcases leased.lease id lease (fewer id lease found) with ⟨l, there, at_⟩ | lapsed
    · by_cases given : id ∈ gone l
      · exact Or.inr (ended l id lease there given at_ found)
      · left
        cases left : l.without (gone l) with
        | none => exact absurd (Ledger.without_none left at_) given
        | some rest =>
          refine ⟨rest, by simp [there, left], ?_⟩
          rw [(Ledger.without_lookup left id).1, if_neg given]
          exact at_
    · exact Or.inr lapsed

theorem Ledger.Leased.reap (leased : Ledger.Leased span now o held) :
    Ledger.Leased span now (o.bind (·.reap (now - span))) held := by
  refine leased.without (fun l => staleSlots l.slots (fin (now - span))) (fun _ _ _ _ => rfl)
    (fun _ _ found => found) ?_
  intro l id lease there stale at_ _
  obtain ⟨since, found, past⟩ := mem_staleSlots.mp stale
  cases Option.some.inj (at_.symm.trans found)
  linarith

theorem Ledger.Leased.release (leased : Ledger.Leased span t o held) (id : String) :
    Ledger.Leased span t (o.bind (·.without [id])) (Function.update held id none) := by
  refine leased.without (fun _ => [id]) ?_ ?_ ?_
  · intro other l _ stays
    exact Function.update_of_ne (by simpa using stays) _ _
  · intro other lease found
    by_cases same : other = id
    · subst same
      rw [Function.update_self] at found
      cases found
    · rwa [Function.update_of_ne same] at found
  · intro l other lease _ given _ found
    rw [List.mem_singleton.mp given, Function.update_self] at found
    cases found

theorem Ledger.Leased.take (leased : Ledger.Leased span now o held) (id : String) (cost : ℚ) {expiresAt : ℚ}
    (covers : now + span ≤ expiresAt) :
    Ledger.Leased span now (some (Ledger.take o id cost expiresAt now))
      (Function.update held id (some ⟨now, cost⟩)) where
  slot l other since found at_ := by
    cases found
    simp only [Ledger.take] at at_ ⊢
    by_cases same : other = id
    · subst same
      rw [AList.lookup_insert] at at_
      cases at_
      rw [Function.update_self, Function.update_self]
      exact ⟨rfl, le_rfl, covers⟩
    · rw [AList.lookup_insert_ne same] at at_
      rw [Function.update_of_ne same, Function.update_of_ne same]
      cases o with
      | none => cases at_
      | some l =>
        obtain ⟨known, past, -⟩ := leased.slot l other since rfl at_
        exact ⟨known, past, by linarith⟩
  lease other lease found := by
    by_cases same : other = id
    · subst same
      rw [Function.update_self] at found
      cases found
      exact Or.inl ⟨_, rfl, AList.lookup_insert _⟩
    · rw [Function.update_of_ne same] at found
      rcases leased.lease other lease found with ⟨l, rfl, at_⟩ | lapsed
      · exact Or.inl ⟨_, rfl, (AList.lookup_insert_ne same).trans at_⟩
      · exact Or.inr lapsed

theorem Ledger.Leased.touch {l : Ledger} (leased : Ledger.Leased span now (some l) held)
    {id : String} (there : id ∈ l.slots) {expiresAt : ℚ} (covers : now + span ≤ expiresAt) :
    Ledger.Leased span now (some (l.touch id expiresAt now))
      (Function.update held id ((held id).map fun lease => { lease with since := now })) := by
  obtain ⟨since, found⟩ := Option.isSome_iff_exists.mp (AList.lookup_isSome.mpr there)
  obtain ⟨known, -, -⟩ := leased.slot l id since rfl found
  have again := leased.take id (l.cost id) covers
  have same : Ledger.take (some l) id (l.cost id) expiresAt now = l.touch id expiresAt now := by
    simp [Ledger.take, Ledger.touch]
  rw [same] at again
  rw [known]
  exact again

theorem Ledger.Leased.released (leased : Ledger.Leased span t o held) (ids : List String) :
    Ledger.Leased span t (Ledger.released ids o) fun id => if id ∈ ids then none else held id := by
  induction ids generalizing o held with
  | nil => simpa [Ledger.released] using leased
  | cons id rest ih =>
    have after := ih (leased.release id)
    have same : (fun other => if other ∈ rest then none else Function.update held id none other) =
        fun other => if other ∈ id :: rest then none else held other := by
      funext other
      by_cases own : other = id
      · subst own
        simp
      · simp [own]
    rw [same] at after
    exact after

theorem Bids.leased {b : Bid} {report : Bool} {o' : Option Ledger} (bids : Bids b now o report o')
    (covers : ∀ lifetime, normalizeStateTtlSeconds b.ttl = .ok lifetime →
      b.config.requestTtl.toRat ≤ lifetime * 1000)
    (leased : Ledger.Leased b.config.requestTtl.toRat now o held) :
    Ledger.Leased b.config.requestTtl.toRat now o'
      (if report then Function.update held b.slotId (some ⟨now, b.cost.toRat⟩) else held) := by
  cases bids with
  | untouched => exact leased
  | reaped usable => exact leased.reap
  | granted usable sized fits =>
    have enough := covers _ sized
    exact leased.reap.take b.slotId b.cost.toRat (by linarith)

theorem LedgerCall.Does.leased {config : ConcurrencyConfig} {key : String} {call : LedgerCall} {report : Bool}
    {o' : Option Ledger} (does : call.Does key now o report o') (under : ∀ b ∈ call.bids key, b.config = config)
    (covers : ∀ ttl ∈ call.lifetimes key, ∀ lifetime, normalizeStateTtlSeconds ttl = .ok lifetime →
      config.requestTtl.toRat ≤ lifetime * 1000)
    (leased : Ledger.Leased config.requestTtl.toRat now o held) :
    Ledger.Leased config.requestTtl.toRat now o' (call.leases key now report held) := by
  have nothing : ∀ f : Leases, (fun id => if id ∈ ([] : List String) then none else f id) = f := fun f => by simp
  have claimed : (call.releases key = []) → (∀ b ∈ call.bids key, b.ttl ∈ call.lifetimes key) →
      ((call.bids key = [] ∧ o' = o) ∨ ∃ b, call.bids key = [b] ∧ Bids b now o report o') →
      Ledger.Leased config.requestTtl.toRat now o'
        (let kept : Leases := fun id => if id ∈ call.releases key then none else held id
        if report then
          (call.bids key).foldl (fun held b => Function.update held b.slotId (some ⟨now, b.cost.toRat⟩)) kept
        else kept) := by
    rintro free lifetimes (⟨none_, rfl⟩ | ⟨b, one, bids⟩)
    · simp only [free, nothing, none_, List.foldl_nil, ite_self]
      exact leased
    · have member : b ∈ call.bids key := by simp [one]
      have same := under b member
      subst same
      simp only [free, nothing, one, List.foldl_cons, List.foldl_nil]
      exact bids.leased (covers b.ttl (lifetimes b member)) leased
  cases call with
  | acquireConcurrency cost requestId config' => exact claimed rfl (by simp [lifetimes, bids]) does
  | acquireQueuedConcurrency metadataKey cost requestId config' =>
    exact claimed rfl (by simp [lifetimes, bids]) does
  | tryAdmitConcurrency queueKey freezeKey cost requestId config' ttl =>
    exact claimed rfl (by simp [lifetimes, bids]) does
  | acquireMultiLimit specs => exact claimed rfl (fun b member => List.mem_map_of_mem member) does
  | tryAdmitMultiLimit queueKey freezeKeys specs ttl =>
    exact claimed rfl (fun b member => List.mem_map_of_mem member) does
  | releaseConcurrency requestId =>
    obtain ⟨rfl, rfl⟩ := does
    exact leased.released [requestId]
  | releaseMultiLimit specs =>
    obtain ⟨rfl, rfl⟩ := does
    exact leased.released _
  | touchConcurrency slotId ttlSeconds =>
    rcases does with ⟨rfl, rfl⟩ | ⟨rfl, l, ttl, rfl, there, sized, rfl⟩
    · exact leased
    · have enough := covers ttlSeconds (by simp [lifetimes]) ttl sized
      exact leased.touch there (by linarith)
  | getConcurrencyState requestTtl =>
    obtain ⟨rfl, rfl⟩ := does
    simpa [leases, releases] using leased
  | elsewhere after =>
    obtain ⟨rfl, rfl⟩ := does
    simpa [leases, releases] using leased

end Leases

section Honouring

variable {config : ConcurrencyConfig} {key : String} {t now : ℚ} {s : State} {o : Option Ledger} {held : Leases}

/-- An unlapsed lease is a slot of the ledger that reaping leaves alone. -/
theorem Ledger.Leased.unlapsed (leased : Ledger.Leased config.requestTtl.toRat now o held) {id : String}
    (unlapsed : held.Unlapsed config now id) :
    ∃ l, Ledger.reaped config now o = some l ∧ id ∈ l.slots ∧ l.cost id = held.cost id := by
  obtain ⟨lease, known, alive⟩ := unlapsed
  have reaped : Ledger.Leased config.requestTtl.toRat now (Ledger.reaped config now o) held := leased.reap
  rcases reaped.lease id lease known with ⟨l, there, at_⟩ | lapsed
  · refine ⟨l, there, ?_, ?_⟩
    · rw [← AList.lookup_isSome, at_]
      rfl
    · obtain ⟨same, -, -⟩ := reaped.slot l id lease.since there at_
      simp [Leases.cost, same]
  · linarith

theorem sum_le_members {l : Ledger} {ids : Finset String} {members : List String} (distinct : members.Nodup)
    (inside : ∀ id ∈ ids, id ∈ members) (nonneg : ∀ id ∈ members, 0 ≤ l.cost id) :
    ∑ id ∈ ids, l.cost id ≤ (members.map l.cost).sum := by
  rw [← List.sum_toFinset l.cost distinct]
  refine Finset.sum_le_sum_of_subset_of_nonneg ?_ ?_
  · intro id member
    exact List.mem_toFinset.mpr (inside id member)
  · intro id member _
    exact nonneg id (List.mem_toFinset.mp member)

theorem LedgerAt.honoured (at_ : LedgerAt s key now o) (usable : unusableSlot 0 config = none)
    (capped : ∀ l, o = some l → l.Capped config.maxConcurrency.toRat)
    (leased : Ledger.Leased config.requestTtl.toRat now o held) : Honoured config key now s held := by
  obtain ⟨limit, -, -, ceiling, positive, -⟩ := unusableSlot_none.mp usable
  have reaped : ∀ l, Ledger.reaped config now o = some l → l.Capped limit := by
    intro l found
    obtain ⟨before, there, left⟩ := Option.bind_eq_some_iff.mp found
    have kept := capped before there
    rw [ceiling] at kept
    exact kept.without left
  -- the costs of the leases are the costs of slots of one ledger
  have slots : ∀ ids : Finset String, ids.Nonempty → (∀ id ∈ ids, held.Unlapsed config now id) →
      ∃ l, Ledger.reaped config now o = some l ∧ (∀ id ∈ ids, id ∈ l.slots) ∧
        ∑ id ∈ ids, held.cost id = ∑ id ∈ ids, l.cost id := by
    rintro ids ⟨first, member⟩ unlapsed
    obtain ⟨l, there, -, -⟩ := leased.unlapsed (unlapsed first member)
    have each : ∀ id ∈ ids, id ∈ l.slots ∧ l.cost id = held.cost id := by
      intro id inside
      obtain ⟨l', there', slot, same⟩ := leased.unlapsed (unlapsed id inside)
      cases Option.some.inj (there.symm.trans there')
      exact ⟨slot, same⟩
    exact ⟨l, there, fun id inside => (each id inside).1,
      Finset.sum_congr rfl fun id inside => (each id inside).2.symm⟩
  constructor
  · intro ids other absent unlapsed
    rw [(at_.reaped usable).cost other, fin_le_fin]
    rcases ids.eq_empty_or_nonempty with rfl | some_
    · rw [Finset.sum_empty]
      cases found : Ledger.reaped config now o with
      | none => exact le_rfl
      | some l =>
        refine List.sum_nonneg ?_
        intro x member
        obtain ⟨id, inside, rfl⟩ := List.mem_map.mp member
        exact (reaped l found).nonneg id (AList.mem_keys.mpr (List.mem_filter.mp inside).1)
    · obtain ⟨l, there, inside, same⟩ := slots ids some_ unlapsed
      rw [same, there]
      refine sum_le_members (l.slots.keys_nodup.filter _) ?_ ?_
      · intro id member
        have ne : id ≠ other := fun equal => absent (equal ▸ member)
        exact List.mem_filter.mpr ⟨AList.mem_keys.mp (inside id member), by simpa using ne⟩
      · intro id member
        exact (reaped l there).nonneg id (AList.mem_keys.mpr (List.mem_filter.mp member).1)
  · intro ids unlapsed
    rw [ceiling, fin_le_fin]
    rcases ids.eq_empty_or_nonempty with rfl | some_
    · rw [Finset.sum_empty]
      exact positive.le
    · obtain ⟨l, there, inside, same⟩ := slots ids some_ unlapsed
      rw [same]
      refine le_trans (sum_le_members l.slots.keys_nodup ?_ ?_) (reaped l there).total_le
      · intro id member
        exact AList.mem_keys.mp (inside id member)
      · intro id member
        exact (reaped l there).nonneg id (AList.mem_keys.mpr member)

/-- A slot granted or touched under keys that outlast its lease is counted until the lease is over. -/
theorem leases_honoured (usable : unusableSlot 0 config = none) (untouched : s.store key = none)
    (uncounted : s.store (costsKey key) = none) {history : List (ℚ × LedgerCall)}
    (valid : (coveredRuns config key).Valid t (s, fun _ => none) history)
    (later : (coveredRuns config key).clock t history ≤ now) :
    Honoured config key now ((coveredRuns config key).final (s, fun _ => none) history).1
      ((coveredRuns config key).final (s, fun _ => none) history).2 := by
  have ceiling : config.maxConcurrency = fin config.maxConcurrency.toRat := by
    obtain ⟨limit, -, -, ceiling, -⟩ := unusableSlot_none.mp usable
    rw [ceiling]
    rfl
  obtain ⟨o, at_, capped, leased⟩ := valid.invariant
    (I := fun t s => ∃ o, LedgerAt s.1 key t o ∧ (∀ l, o = some l → l.Capped config.maxConcurrency.toRat) ∧
      Ledger.Leased config.requestTtl.toRat t o s.2)
    (by
      rintro t now call s later ⟨under, apart, covers⟩ ⟨o, at_, capped, leased⟩
      obtain ⟨o', after, does⟩ := (at_.later later).call apart
      refine ⟨o', after, does.capped (fun b member => (congrArg (fun c => c.maxConcurrency.toRat) (under b member)).le) ?_,
        does.leased under covers (leased.later later)⟩
      intro l found
      exact capped l (Option.filter_eq_some_iff.mp found).1)
    ⟨none, ⟨by simp [State.live, untouched], by simp [State.live, uncounted]⟩, nofun, ⟨nofun, nofun⟩⟩
  refine (at_.later later).honoured usable ?_ (leased.later later)
  intro l found
  exact capped l (Option.filter_eq_some_iff.mp found).1

end Honouring

/-- A slot kept alive by a touch, beside another that is given back. -/
def sharedRun : List (ℚ × LedgerCall) :=
  [(0, .acquireConcurrency 2 "first" threeAtOnce), (10, .acquireConcurrency 1 "second" threeAtOnce),
    (50000, .touchConcurrency "first" 86400), (50010, .releaseConcurrency "second")]

theorem leases_honoured_shared :
    Honoured threeAtOnce "ledger" 100000 ((coveredRuns threeAtOnce "ledger").final (State.fresh, fun _ => none) sharedRun).1
      ((coveredRuns threeAtOnce "ledger").final (State.fresh, fun _ => none) sharedRun).2 := by
  have enough : ∀ lifetime, normalizeStateTtlSeconds 86400 = .ok lifetime →
      threeAtOnce.requestTtl.toRat ≤ lifetime * 1000 := by
    intro lifetime sized
    rw [normalizeStateTtlSeconds_day] at sized
    cases sized
    decide +kernel
  have claims : ∀ cost id now s, (coveredRuns threeAtOnce "ledger").allowed now
      (.acquireConcurrency cost id threeAtOnce) s :=
    fun cost id now s => ⟨by simp [LedgerCall.bids], trivial,
      by simpa [-ofNat_eq, LedgerCall.lifetimes, LedgerCall.bids] using enough⟩
  have touches : ∀ now s, (coveredRuns threeAtOnce "ledger").allowed now (.touchConcurrency "first" 86400) s :=
    fun now s => ⟨by simp [LedgerCall.bids], trivial, by simpa [-ofNat_eq, LedgerCall.lifetimes] using enough⟩
  have releases : ∀ now s, (coveredRuns threeAtOnce "ledger").allowed now (.releaseConcurrency "second") s :=
    fun now s => ⟨by simp [LedgerCall.bids], trivial, by simp [LedgerCall.lifetimes, LedgerCall.bids]⟩
  have valid : (coveredRuns threeAtOnce "ledger").Valid 0 (State.fresh, fun _ => none) sharedRun :=
    Timed.Machine.valid_cons.mpr ⟨le_rfl, claims _ _ _ _, Timed.Machine.valid_cons.mpr ⟨by norm_num, claims _ _ _ _,
      Timed.Machine.valid_cons.mpr ⟨by norm_num, touches _ _,
        Timed.Machine.valid_cons.mpr ⟨by norm_num, releases _ _, Timed.Machine.valid_nil⟩⟩⟩⟩
  exact leases_honoured (by decide +kernel) rfl rfl valid (by decide +kernel)

/-- One at once, each for twenty-five hours. -/
def oneAllDay : ConcurrencyConfig := ⟨1, 90000000⟩

/-- A second claim a day after the first. -/
def overlapRun : List (ℚ × LedgerCall) :=
  [(0, .acquireConcurrency 1 "first" oneAllDay), (86400000, .acquireConcurrency 1 "second" oneAllDay)]

/-- The keys lapse an hour before the first lease does, and both slots are held. -/
theorem overlap_honoured_not :
    unusableSlot 0 oneAllDay = none ∧ (dayRuns oneAllDay "ledger").Valid 0 (State.fresh, fun _ => none) overlapRun ∧
      ¬ Honoured oneAllDay "ledger" 86400000 ((dayRuns oneAllDay "ledger").final (State.fresh, fun _ => none) overlapRun).1
        ((dayRuns oneAllDay "ledger").final (State.fresh, fun _ => none) overlapRun).2 := by
  have claims : ∀ id now s, (dayRuns oneAllDay "ledger").allowed now (.acquireConcurrency 1 id oneAllDay) s :=
    fun id now s => ⟨by simp [LedgerCall.bids], trivial, by simp [LedgerCall.lifetimes, LedgerCall.bids]⟩
  have valid : (dayRuns oneAllDay "ledger").Valid 0 (State.fresh, fun _ => none) overlapRun :=
    Timed.Machine.valid_cons.mpr ⟨le_rfl, claims _ _ _,
      Timed.Machine.valid_cons.mpr ⟨by norm_num, claims _ _ _, Timed.Machine.valid_nil⟩⟩
  refine ⟨by decide +kernel, valid, ?_⟩
  intro honoured
  have first : ((dayRuns oneAllDay "ledger").final (State.fresh, fun _ => none) overlapRun).2 "first" =
      some ⟨0, 1⟩ := by
    decide +kernel
  have second : ((dayRuns oneAllDay "ledger").final (State.fresh, fun _ => none) overlapRun).2 "second" =
      some ⟨86400000, 1⟩ := by
    decide +kernel
  have both := honoured.total {"first", "second"} (by
    intro id member
    rcases Finset.mem_insert.mp member with rfl | last
    · exact ⟨_, first, by decide +kernel⟩
    · rw [Finset.mem_singleton.mp last]
      exact ⟨_, second, by decide +kernel⟩)
  rw [Finset.sum_pair (by decide)] at both
  simp only [Leases.cost, first, second, Option.elim_some] at both
  revert both
  decide +kernel

end Dianemo
