import Dianemo.Slots
import Dianemo.Library.Timed

namespace Dianemo

open JsNumber

/-- Runs of the backend as the ledger `key` sees them. -/
def ledgerRuns (key : String) (allowed : ℚ → LedgerCall → State → Prop) : Timed.Machine ℚ State LedgerCall where
  step now call s := (call.exec key now s).2
  allowed := allowed

/-- Runs of every ledger operation, all claims under one configuration. -/
def cappedRuns (config : ConcurrencyConfig) (key : String) : Timed.Machine ℚ State LedgerCall :=
  ledgerRuns key fun now call s => (∀ b ∈ call.bids key, b.config = config) ∧ call.Apart key now s

/-- The slot set and the costs beside it agree, and stay under the ceiling. -/
structure Capped (limit : ℚ) (key : String) (now : ℚ) (s : State) : Prop where
  members : ∀ id, (∃ z, s.zset key now = some z ∧ id ∈ z) ↔ ∃ h, s.hash (costsKey key) now = some h ∧ id ∈ h
  costs : ∀ h id field, s.hash (costsKey key) now = some h → h.lookup id = some field →
    ∃ cost : ℚ, field = .num (fin cost) ∧ 0 ≤ cost
  total : ∀ h, s.hash (costsKey key) now = some h → (h.keys.map fun id => (slotCost (some h) id).toRat).sum ≤ limit

structure Ledger.Capped (limit : ℚ) (l : Ledger) : Prop where
  nonneg : ∀ id ∈ l.slots, 0 ≤ l.cost id
  total_le : l.total ≤ limit

section Ledgers

variable {limit now : ℚ} {l : Ledger} {o : Option Ledger}

theorem sum_filter_le {cost : String → ℚ} {members : List String} (nonneg : ∀ id ∈ members, 0 ≤ cost id)
    (keep : String → Bool) : ((members.filter keep).map cost).sum ≤ (members.map cost).sum := by
  induction members with
  | nil => exact le_rfl
  | cons id rest ih =>
    rw [List.forall_mem_cons] at nonneg
    have below := ih nonneg.2
    rw [List.filter_cons, List.map_cons, List.sum_cons]
    split
    · rw [List.map_cons, List.sum_cons]
      linarith
    · linarith [nonneg.1]

theorem Ledger.Capped.without (capped : l.Capped limit) {gone : List String} {rest : Ledger}
    (left : l.without gone = some rest) : rest.Capped limit := by
  unfold Ledger.without at left
  split at left
  · cases left
  · cases left
    refine ⟨fun id member => capped.nonneg id (mem_eraseAll.mp member).1, ?_⟩
    rw [Ledger.total, eraseAll_keys]
    refine (sum_filter_le ?_ _).trans capped.total_le
    intro id member
    exact capped.nonneg id (AList.mem_keys.mpr member)

theorem Ledger.take_total (o : Option Ledger) (id : String) (cost expiresAt now : ℚ) :
    (Ledger.take o id cost expiresAt now).total = (o.elim 0 (·.others id)) + cost := by
  have others : ∀ (z : Scores) (paid : String → ℚ),
      ((z.insert id now).keys.map (Function.update paid id cost)).sum =
      ((z.keys.filter (· ≠ id)).map paid).sum + cost := by
    intro z paid
    have rest : z.keys.erase id = z.keys.filter (· ≠ id) := by
      rw [z.keys_nodup.erase_eq_filter]
      refine List.filter_congr ?_
      intro other _
      rw [Bool.eq_iff_iff, bne_iff_ne, decide_eq_true_iff]
    rw [AList.keys_insert, List.map_cons, List.sum_cons, Function.update_self, rest, add_comm]
    congr 2
    refine List.map_congr_left ?_
    intro other member
    have ne : other ≠ id := by simpa using (List.mem_filter.mp member).2
    exact Function.update_of_ne ne _ _
  cases o with
  | none =>
    have empty : (Ledger.take none id cost expiresAt now).total = _ := others ∅ fun _ => 0
    rw [empty]
    simp
  | some l => exact others l.slots l.cost

theorem Ledger.Capped.take (capped : ∀ l, o = some l → l.Capped limit) {id : String} {cost : ℚ} (free : 0 ≤ cost)
    (fits : (o.elim 0 (·.others id)) + cost ≤ limit) (expiresAt : ℚ) :
    (Ledger.take o id cost expiresAt now).Capped limit := by
  refine ⟨?_, by rw [Ledger.take_total]; exact fits⟩
  intro other member
  by_cases same : other = id
  · subst same
    simpa [Ledger.take] using free
  · rw [Ledger.take, AList.mem_insert] at member
    simp only [Ledger.take, Function.update_of_ne same]
    have held := member.resolve_left same
    cases o with
    | none => exact absurd held (AList.notMem_empty other)
    | some l => exact (capped l rfl).nonneg other held

theorem Ledger.Capped.touch (capped : l.Capped limit) {id : String} (held : id ∈ l.slots) (expiresAt now : ℚ) :
    (l.touch id expiresAt now).Capped limit := by
  refine ⟨?_, ?_⟩
  · intro other member
    rw [Ledger.touch, AList.mem_insert] at member
    rcases member with rfl | found
    · exact capped.nonneg other held
    · exact capped.nonneg other found
  · have perm : ((l.slots.insert id now).keys.map l.cost).Perm (l.slots.keys.map l.cost) := by
      rw [AList.keys_insert]
      exact (List.perm_cons_erase (AList.mem_keys.mp held)).symm.map _
    have same : (l.touch id expiresAt now).total = l.total := perm.sum_eq
    rw [same]
    exact capped.total_le

theorem Ledger.Capped.released {ids : List String} (capped : ∀ l, o = some l → l.Capped limit) :
    ∀ l, Ledger.released ids o = some l → l.Capped limit := by
  induction ids generalizing o with
  | nil => exact capped
  | cons id rest ih =>
    refine ih ?_
    intro l found
    obtain ⟨before, held, left⟩ := Option.bind_eq_some_iff.mp found
    exact (capped before held).without left

theorem Bids.capped {b : Bid} {report : Bool} {o' : Option Ledger} (bids : Bids b now o report o')
    (ceiling : b.config.maxConcurrency.toRat ≤ limit) (capped : ∀ l, o = some l → l.Capped limit) :
    ∀ l, o' = some l → l.Capped limit := by
  have reaped : ∀ l, Ledger.reaped b.config now o = some l → l.Capped limit := by
    intro l found
    obtain ⟨before, held, left⟩ := Option.bind_eq_some_iff.mp found
    exact (capped before held).without left
  cases bids with
  | untouched => exact capped
  | reaped usable => exact reaped
  | granted usable sized fits =>
    obtain ⟨-, amount, -, -, -, atCost, free, -⟩ := unusableSlot_none.mp usable
    rw [atCost] at fits ⊢
    rintro l ⟨⟩
    exact Ledger.Capped.take reaped free (fits.trans ceiling) _

theorem LedgerCall.Does.capped {key : String} {call : LedgerCall} {report : Bool} {o' : Option Ledger}
    (does : call.Does key now o report o')
    (under : ∀ b ∈ call.bids key, b.config.maxConcurrency.toRat ≤ limit)
    (capped : ∀ l, o = some l → l.Capped limit) : ∀ l, o' = some l → l.Capped limit := by
  have claimed : ((call.bids key = [] ∧ o' = o) ∨ ∃ b, call.bids key = [b] ∧ Bids b now o report o') →
      ∀ l, o' = some l → l.Capped limit := by
    rintro (⟨-, rfl⟩ | ⟨b, one, bids⟩)
    · exact capped
    · exact bids.capped (under b (by simp [one])) capped
  cases call with
  | acquireConcurrency cost requestId config => exact claimed does
  | acquireQueuedConcurrency metadataKey cost requestId config => exact claimed does
  | tryAdmitConcurrency queueKey freezeKey cost requestId config ttl => exact claimed does
  | acquireMultiLimit specs => exact claimed does
  | tryAdmitMultiLimit queueKey freezeKeys specs ttl => exact claimed does
  | releaseConcurrency requestId =>
    obtain ⟨-, rfl⟩ := does
    exact Ledger.Capped.released capped
  | releaseMultiLimit specs =>
    obtain ⟨-, rfl⟩ := does
    exact Ledger.Capped.released capped
  | touchConcurrency slotId ttlSeconds =>
    rcases does with ⟨-, rfl⟩ | ⟨-, l, ttl, rfl, held, -, rfl⟩
    · exact capped
    · rintro _ ⟨⟩
      exact (capped l rfl).touch held _ _
  | getConcurrencyState requestTtl =>
    obtain ⟨-, rfl⟩ := does
    exact capped
  | elsewhere after =>
    obtain ⟨-, rfl⟩ := does
    exact capped

end Ledgers

section CappedRuns

variable {config : ConcurrencyConfig} {limit : ℚ} {key : String} {t now : ℚ} {s : State}

theorem LedgerAt.capped {o : Option Ledger} (at_ : LedgerAt s key now o)
    (capped : ∀ l, o = some l → l.Capped limit) : Capped limit key now s := by
  cases o with
  | none =>
    have slots : s.zset key now = none := by simp [State.zset, at_.1]
    have costs : s.hash (costsKey key) now = none := by simp [State.hash, at_.2]
    constructor <;> simp [slots, costs]
  | some l =>
    obtain ⟨e, c, foundSlots, foundCosts, is⟩ := at_
    obtain ⟨h, hash, reads⟩ := is.costs
    have slots : s.zset key now = some l.slots := by simp [State.zset, foundSlots, is.slots]
    have costs : s.hash (costsKey key) now = some h := by simp [State.hash, foundCosts, hash]
    have same := is.same_members hash
    have kept := capped l rfl
    refine ⟨?_, ?_, ?_⟩
    · intro id
      simp [slots, costs, same]
    · intro h' id field found stored
      cases Option.some.inj (costs.symm.trans found)
      rw [reads] at stored
      split at stored
      · rename_i member
        cases stored
        exact ⟨l.cost id, rfl, kept.nonneg id member⟩
      · cases stored
    · intro h' found
      cases Option.some.inj (costs.symm.trans found)
      have perm : h.keys.Perm l.slots.keys := by
        refine (List.perm_ext_iff_of_nodup h.keys_nodup l.slots.keys_nodup).mpr ?_
        intro id
        rw [← AList.mem_keys, ← AList.mem_keys]
        exact same id
      have paid : (h.keys.map fun id => (slotCost (some h) id).toRat) = h.keys.map l.cost := by
        refine List.map_congr_left ?_
        intro id member
        have held := (same id).mp (AList.mem_keys.mpr member)
        rw [← hash, is.slotCost held, toRat_fin]
      rw [paid, (perm.map l.cost).sum_eq]
      exact kept.total_le

theorem capped_step {call : LedgerCall} {o : Option Ledger}
    (ceiling : config.maxConcurrency = fin limit) (later : t ≤ now)
    (allowed : (cappedRuns config key).allowed now call s) (at_ : LedgerAt s key t o)
    (capped : ∀ l, o = some l → l.Capped limit) :
    ∃ o', LedgerAt (call.exec key now s).2 key now o' ∧ ∀ l, o' = some l → l.Capped limit := by
  obtain ⟨under, apart⟩ := allowed
  obtain ⟨o', after, does⟩ := (at_.later later).call apart
  have within : ∀ b ∈ call.bids key, b.config.maxConcurrency.toRat ≤ limit := by
    intro b member
    rw [under b member, ceiling]
    exact le_rfl
  refine ⟨o', after, does.capped within ?_⟩
  intro l found
  exact capped l (Option.filter_eq_some_iff.mp found).1

/-- The ledger's two keys never part, and what they hold never exceeds the ceiling. -/
theorem ledger_capped (usable : unusableSlot 0 config = none) (untouched : s.store key = none)
    (uncounted : s.store (costsKey key) = none) {history : List (ℚ × LedgerCall)}
    (valid : (cappedRuns config key).Valid t s history) (later : (cappedRuns config key).clock t history ≤ now) :
    Capped config.maxConcurrency.toRat key now ((cappedRuns config key).final s history) := by
  obtain ⟨limit, -, -, ceiling, -⟩ := unusableSlot_none.mp usable
  obtain ⟨o, at_, capped⟩ := valid.invariant
    (I := fun t s => ∃ o, LedgerAt s key t o ∧ ∀ l, o = some l → l.Capped limit)
    (fun t now call s later allowed ⟨o, at_, capped⟩ => capped_step ceiling later allowed at_ capped)
    ⟨none, ⟨by simp [State.live, untouched], by simp [State.live, uncounted]⟩, nofun⟩
  rw [ceiling]
  refine (at_.later later).capped ?_
  intro l found
  exact capped l (Option.filter_eq_some_iff.mp found).1

end CappedRuns

section AnyRuns

variable {key : String} {t now : ℚ} {s : State}

/-- Runs of every ledger operation, each claim under a configuration of its own. -/
def unboundRuns (key : String) : Timed.Machine ℚ State LedgerCall :=
  ledgerRuns key fun now call s => call.Apart key now s

/-- A bound of claims' ceilings and of a first bound. -/
def Bid.ceiling (limit : ℚ) (bids : List Bid) : ℚ :=
  bids.foldr (fun b most => Max.max b.config.maxConcurrency.toRat most) limit

theorem Bid.le_ceiling (limit : ℚ) (bids : List Bid) :
    limit ≤ Bid.ceiling limit bids ∧ ∀ b ∈ bids, b.config.maxConcurrency.toRat ≤ Bid.ceiling limit bids := by
  induction bids with
  | nil => exact ⟨le_rfl, fun _ member => absurd member List.not_mem_nil⟩
  | cons b rest ih =>
    refine ⟨ih.1.trans (le_max_right _ _), ?_⟩
    rw [List.forall_mem_cons]
    exact ⟨le_max_left _ _, fun other member => (ih.2 other member).trans (le_max_right _ _)⟩

/-- Whatever ceilings claims came under, the ledger's keys never part and no slot costs less than nothing. -/
theorem ledger_counted (untouched : s.store key = none) (uncounted : s.store (costsKey key) = none)
    {history : List (ℚ × LedgerCall)} (valid : (unboundRuns key).Valid t s history)
    (later : (unboundRuns key).clock t history ≤ now) :
    ∃ o, LedgerAt ((unboundRuns key).final s history) key now o ∧ ∃ limit, ∀ l, o = some l → l.Capped limit := by
  obtain ⟨o, at_, limit, capped⟩ := valid.invariant
    (I := fun t s => ∃ o, LedgerAt s key t o ∧ ∃ limit, ∀ l, o = some l → l.Capped limit)
    (by
      rintro t now call s later apart ⟨o, at_, limit, capped⟩
      obtain ⟨o', after, does⟩ := (at_.later later).call apart
      obtain ⟨higher, within⟩ := Bid.le_ceiling limit (call.bids key)
      refine ⟨o', after, Bid.ceiling limit (call.bids key), does.capped within ?_⟩
      intro l found
      have before := capped l (Option.filter_eq_some_iff.mp found).1
      exact ⟨before.nonneg, before.total_le.trans higher⟩)
    ⟨none, ⟨by simp [State.live, untouched], by simp [State.live, uncounted]⟩, 0, nofun⟩
  refine ⟨_, at_.later later, limit, ?_⟩
  intro l found
  exact capped l (Option.filter_eq_some_iff.mp found).1

end AnyRuns

/-- Three at once, each for a minute. -/
def threeAtOnce : ConcurrencyConfig := ⟨3, 60000⟩

/-- Two slots of two claimed, the first of which is touched and then given back. -/
def contendedRun : List (ℚ × LedgerCall) :=
  [(0, .acquireConcurrency 2 "first" threeAtOnce),
    (10, .tryAdmitConcurrency "queue" "freeze" 2 "second" threeAtOnce 86400),
    (20, .touchConcurrency "first" 86400), (30, .releaseConcurrency "first"),
    (40, .acquireMultiLimit [.concurrency ⟨"ledger", 2, threeAtOnce, "second", none⟩])]

theorem ledger_capped_contended :
    Capped 3 "ledger" 50 ((cappedRuns threeAtOnce "ledger").final State.fresh contendedRun) := by
  have claims : ∀ now s, (cappedRuns threeAtOnce "ledger").allowed now
      (.acquireConcurrency 2 "first" threeAtOnce) s :=
    fun now s => ⟨by simp [LedgerCall.bids], trivial⟩
  have admits : ∀ now s, (cappedRuns threeAtOnce "ledger").allowed now
      (.tryAdmitConcurrency "queue" "freeze" 2 "second" threeAtOnce 86400) s :=
    fun now s => ⟨by simp [LedgerCall.bids], trivial⟩
  have touches : ∀ now s, (cappedRuns threeAtOnce "ledger").allowed now (.touchConcurrency "first" 86400) s :=
    fun now s => ⟨by simp [LedgerCall.bids], trivial⟩
  have releases : ∀ now s, (cappedRuns threeAtOnce "ledger").allowed now (.releaseConcurrency "first") s :=
    fun now s => ⟨by simp [LedgerCall.bids], trivial⟩
  have together : ∀ now s, (cappedRuns threeAtOnce "ledger").allowed now
      (.acquireMultiLimit [.concurrency ⟨"ledger", 2, threeAtOnce, "second", none⟩]) s :=
    fun now s => ⟨by simp [LedgerCall.bids, MultiLimitSpec.bid],
      by simp [LedgerCall.Apart, SlotsApart, MultiLimitSpec.bid]⟩
  have valid : (cappedRuns threeAtOnce "ledger").Valid 0 State.fresh contendedRun :=
    Timed.Machine.valid_cons.mpr ⟨le_rfl, claims _ _, Timed.Machine.valid_cons.mpr ⟨by norm_num, admits _ _,
      Timed.Machine.valid_cons.mpr ⟨by norm_num, touches _ _,
        Timed.Machine.valid_cons.mpr ⟨by norm_num, releases _ _,
        Timed.Machine.valid_cons.mpr ⟨by norm_num, together _ _, Timed.Machine.valid_nil⟩⟩⟩⟩⟩
  exact ledger_capped (by decide +kernel) rfl rfl valid (by decide +kernel)

end Dianemo
