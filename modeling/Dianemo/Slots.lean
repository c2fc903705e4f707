import Dianemo.Ledger

namespace Dianemo

open JsNumber

/-- A backend call as one slot ledger sees it. `elsewhere` stands for whatever
other keys' traffic turns the store into. -/
inductive LedgerCall where
  | acquireConcurrency (cost : JsNumber) (requestId : String) (config : ConcurrencyConfig)
  | acquireQueuedConcurrency (metadataKey : String) (cost : JsNumber) (requestId : String)
      (config : ConcurrencyConfig)
  | tryAdmitConcurrency (queueKey freezeKey : String) (cost : JsNumber) (requestId : String)
      (config : ConcurrencyConfig) (ttl : JsNumber)
  | acquireMultiLimit (specs : List MultiLimitSpec)
  | tryAdmitMultiLimit (queueKey : String) (freezeKeys : List String) (specs : List MultiLimitSpec) (ttl : JsNumber)
  | releaseConcurrency (requestId : String)
  | releaseMultiLimit (specs : List MultiLimitSpec)
  | touchConcurrency (slotId : String) (ttlSeconds : JsNumber)
  | getConcurrencyState (requestTtl : JsNumber)
  | elsewhere (after : State)

/-- One claim on the ledger. -/
structure Bid where
  slotId : String
  cost : JsNumber
  config : ConcurrencyConfig
  ttl : JsNumber

def MultiLimitSpec.bid (key : String) (ttl : JsNumber) : MultiLimitSpec → Option Bid
  | .tokenBucket _ => none
  | .concurrency spec => if spec.key = key then some ⟨spec.slotId, spec.cost, spec.config, ttl⟩ else none

/-- Whether a claim or a touch came through, with the state it leaves. A throw comes through as nothing. -/
def granted {α : Type} (tell : α → Bool) (result : Except RangeError α × State) : Bool × State :=
  (match result.1 with
    | .ok a => tell a
    | .error _ => false, result.2)

namespace LedgerCall

def exec (key : String) (now : ℚ) (s : State) : LedgerCall → Bool × State
  | .acquireConcurrency cost requestId config =>
    granted AcquireConcurrencyResult.acquired ((Dianemo.acquireConcurrency key cost requestId config now).run s)
  | .acquireQueuedConcurrency metadataKey cost requestId config =>
    granted AcquireConcurrencyResult.acquired
      ((Dianemo.acquireQueuedConcurrency key metadataKey cost requestId config now).run s)
  | .tryAdmitConcurrency queueKey freezeKey cost requestId config ttl =>
    granted id ((Dianemo.tryAdmitConcurrency queueKey key freezeKey cost requestId config ttl now).run s)
  | .acquireMultiLimit specs =>
    granted AcquireMultiLimitResult.acquired ((Dianemo.acquireMultiLimit specs now).run s)
  | .tryAdmitMultiLimit queueKey freezeKeys specs ttl =>
    granted id ((Dianemo.tryAdmitMultiLimit queueKey freezeKeys specs ttl now).run s)
  | .releaseConcurrency requestId => granted (fun _ => false) ((Dianemo.releaseConcurrency key requestId now).run s)
  | .releaseMultiLimit specs => granted (fun _ => false) ((Dianemo.releaseMultiLimit specs now).run s)
  | .touchConcurrency slotId ttlSeconds => granted id ((Dianemo.touchConcurrency key slotId ttlSeconds now).run s)
  | .getConcurrencyState requestTtl => granted (fun _ => false)
    ((Dianemo.getConcurrencyState key requestTtl now).run s)
  | .elsewhere after => (false, after)

/-- The claims a call makes on the ledger `key`. -/
def bids (key : String) : LedgerCall → List Bid
  | .acquireConcurrency cost requestId config => [⟨requestId, cost, config, 86400⟩]
  | .acquireQueuedConcurrency _ cost requestId config => [⟨requestId, cost, config, 86400⟩]
  | .tryAdmitConcurrency _ _ cost requestId config ttl => [⟨requestId, cost, config, ttl⟩]
  | .acquireMultiLimit specs => specs.filterMap (MultiLimitSpec.bid key 86400)
  | .tryAdmitMultiLimit _ _ specs ttl => specs.filterMap (MultiLimitSpec.bid key ttl)
  | _ => []

/-- The slots of the ledger `key` a call gives back. -/
def releases (key : String) : LedgerCall → List String
  | .releaseConcurrency requestId => [requestId]
  | .releaseMultiLimit specs => (specs.filterMap (MultiLimitSpec.bid key 86400)).map Bid.slotId
  | _ => []

end LedgerCall

/-- A claim names the ledger once at most, and its other budgets keep away from the ledger's keys. -/
def SlotsApart (key : String) (specs : List MultiLimitSpec) : Prop :=
  (specs.filterMap (MultiLimitSpec.bid key 86400)).length ≤ 1 ∧
    ∀ spec ∈ specs, (∃ c, spec = .concurrency c ∧ c.key = key) ∨ ∀ k ∈ spec.footprint, k ∉ ledgerKeys key

/-- The call reaches the ledger's keys only through the ledger. -/
def LedgerCall.Apart (key : String) (now : ℚ) (s : State) : LedgerCall → Prop
  | .acquireMultiLimit specs => SlotsApart key specs
  | .tryAdmitMultiLimit _ _ specs _ => SlotsApart key specs
  | .releaseMultiLimit specs =>
    ∀ spec ∈ specs, (∃ c, spec = .concurrency c ∧ c.key = key) ∨ ∀ k ∈ spec.home, k ∉ ledgerKeys key
  | .elsewhere after => Keeps (ledgerKeys key) now s after
  | _ => True

theorem unusableSlot_none {cost : JsNumber} {config : ConcurrencyConfig} :
    unusableSlot cost config = none ↔ ∃ limit amount lease : ℚ, config.maxConcurrency = fin limit ∧ 0 < limit ∧
      cost = fin amount ∧ 0 ≤ amount ∧ config.requestTtl = fin lease ∧ 0 < lease := by
  simp only [unusableSlot, usableConcurrency, usableCost, usableRequestTtl, Bool.and_eq_true, decide_eq_true_eq]
  constructor
  · intro usable
    split_ifs at usable with limit amount lease
    obtain ⟨⟨q, atLimit⟩, positive⟩ := limit.imp_left isFinite_iff.mp
    obtain ⟨⟨c, atCost⟩, free⟩ := amount.imp_left isFinite_iff.mp
    obtain ⟨⟨t, atLease⟩, lives⟩ := lease.imp_left isFinite_iff.mp
    rw [atLimit, zero_eq, fin_lt_fin] at positive
    rw [atCost, zero_eq, fin_le_fin] at free
    rw [atLease, zero_eq, fin_lt_fin] at lives
    exact ⟨q, c, t, atLimit, positive, atCost, free, atLease, lives⟩
  · rintro ⟨q, c, t, atLimit, positive, atCost, free, atLease, lives⟩
    simp [atLimit, atCost, atLease, positive, free, lives]

/-- The ledger once a claim under `config` has reaped it. -/
def Ledger.reaped (config : ConcurrencyConfig) (now : ℚ) (o : Option Ledger) : Option Ledger :=
  o.bind (·.reap (now - config.requestTtl.toRat))

/-- What one claim can come to. -/
inductive Bids (b : Bid) (now : ℚ) (o : Option Ledger) : Bool → Option Ledger → Prop
  | untouched : Bids b now o false o
  | reaped : unusableSlot b.cost b.config = none → Bids b now o false (Ledger.reaped b.config now o)
  | granted {ttl} : unusableSlot b.cost b.config = none → normalizeStateTtlSeconds b.ttl = .ok ttl →
      ((Ledger.reaped b.config now o).elim 0 (·.others b.slotId)) + b.cost.toRat ≤ b.config.maxConcurrency.toRat →
      Bids b now o true
        (some (Ledger.take (Ledger.reaped b.config now o) b.slotId b.cost.toRat (now + ttl * 1000) now))

section Claims

variable {key : String} {now : ℚ} {s : State} {o : Option Ledger}

theorem LedgerAt.reaped (at_ : LedgerAt s key now o) {cost : JsNumber} {config : ConcurrencyConfig}
    (usable : unusableSlot cost config = none) :
    LedgerAt (reapConcurrency s key (fin now - config.requestTtl) now) key now (Ledger.reaped config now o) := by
  obtain ⟨-, -, lease, -, -, -, -, atLease, -⟩ := unusableSlot_none.mp usable
  rw [Ledger.reaped, atLease, sub_fin]
  exact at_.reap _

/-- The ceiling as the code compares it. -/
theorem LedgerAt.fits (at_ : LedgerAt s key now o) {cost : JsNumber} {config : ConcurrencyConfig}
    (usable : unusableSlot cost config = none) (id : String) :
    ¬ config.maxConcurrency < concurrencyCost s key id now + cost ↔
      (o.elim 0 (·.others id)) + cost.toRat ≤ config.maxConcurrency.toRat := by
  obtain ⟨limit, amount, -, atLimit, -, rfl, -⟩ := unusableSlot_none.mp usable
  rw [at_.cost, atLimit, add_fin, fin_lt_fin, not_lt]
  rfl

theorem LedgerAt.taken (at_ : LedgerAt s key now o) {cost : JsNumber} {config : ConcurrencyConfig}
    (usable : unusableSlot cost config = none) (id : String) {ttl : ℚ} (whole : WholeTtl ttl) :
    LedgerAt (s.takeSlot key id cost ttl now) key now
      (some (Ledger.take o id cost.toRat (now + ttl * 1000) now)) := by
  obtain ⟨-, amount, -, -, -, rfl, -⟩ := unusableSlot_none.mp usable
  exact at_.take id amount whole.pos

theorem LedgerAt.acquireConcurrency (at_ : LedgerAt s key now o) (cost : JsNumber) (requestId : String)
    (config : ConcurrencyConfig) :
    ∃ o', LedgerAt ((LedgerCall.acquireConcurrency cost requestId config).exec key now s).2 key now o' ∧
      Bids ⟨requestId, cost, config, 86400⟩ now o
        ((LedgerCall.acquireConcurrency cost requestId config).exec key now s).1 o' := by
  simp only [LedgerCall.exec, Dianemo.acquireConcurrency]
  cases usable : unusableSlot cost config with
  | some error => exact ⟨o, at_, .untouched⟩
  | none =>
    have reaped := at_.reaped usable
    have fits := reaped.fits usable requestId
    simp only
    rw [Op.run_bind_ok (Op.run_modify _ _), Op.run_bind_ok (Op.run_read _)]
    by_cases full : config.maxConcurrency <
        concurrencyCost (reapConcurrency s key (fin now - config.requestTtl) now) key requestId now + cost
    · simp only [if_pos full]
      exact ⟨_, reaped, .reaped usable⟩
    · simp only [if_neg full, ofNat_eq]
      rw [Op.run_bind_ok (claimSlot_run WholeTtl.day _ _ _ _ _)]
      exact ⟨_, reaped.taken usable requestId WholeTtl.day,
        .granted usable normalizeStateTtlSeconds_day (fits.mp full)⟩

theorem Ledger.reap_reap (l : Ledger) (expireTime : ℚ) :
    (l.reap expireTime).bind (·.reap expireTime) = l.reap expireTime := by
  have none_ : staleSlots (eraseAll l.slots (staleSlots l.slots (fin expireTime))) (fin expireTime) = [] := by
    rw [List.eq_nil_iff_forall_not_mem]
    intro id member
    obtain ⟨taken, found, stale⟩ := mem_staleSlots.mp member
    rw [eraseAll_lookup] at found
    split at found
    · cases found
    · rename_i kept
      exact kept (mem_staleSlots.mpr ⟨taken, found, stale⟩)
  have same : ∀ m : Scores, eraseAll m [] = m := fun _ => rfl
  by_cases empty : (eraseAll l.slots (staleSlots l.slots (fin expireTime))).entries.length = 0
  · simp only [Ledger.reap, Ledger.without, if_pos empty, Option.bind_none]
  · simp only [Ledger.reap, Ledger.without, if_neg empty, Option.bind_some, none_, same]

theorem Ledger.reaped_reaped (config : ConcurrencyConfig) (now : ℚ) (o : Option Ledger) :
    Ledger.reaped config now (Ledger.reaped config now o) = Ledger.reaped config now o := by
  cases o with
  | none => rfl
  | some l => exact l.reap_reap _

theorem Bids.of_reaped {b : Bid} {admitted : Bool} {o' : Option Ledger}
    (usable : unusableSlot b.cost b.config = none)
    (bids : Bids b now (Ledger.reaped b.config now o) admitted o') : Bids b now o admitted o' := by
  cases bids with
  | untouched => exact .reaped usable
  | reaped _ =>
    rw [Ledger.reaped_reaped]
    exact .reaped usable
  | granted _ sized fits =>
    rw [Ledger.reaped_reaped] at fits ⊢
    exact .granted usable sized fits

theorem LedgerAt.acquireQueuedConcurrency (at_ : LedgerAt s key now o) (metadataKey : String) (cost : JsNumber)
    (requestId : String) (config : ConcurrencyConfig) :
    ∃ o', LedgerAt ((LedgerCall.acquireQueuedConcurrency metadataKey cost requestId config).exec key now s).2 key now o' ∧
      Bids ⟨requestId, cost, config, 86400⟩ now o
        ((LedgerCall.acquireQueuedConcurrency metadataKey cost requestId config).exec key now s).1 o' := by
  simp only [LedgerCall.exec, Dianemo.acquireQueuedConcurrency]
  cases usable : unusableSlot cost config with
  | some error => exact ⟨o, at_, .untouched⟩
  | none =>
    have reaped := at_.reaped usable
    simp only
    rw [Op.run_bind_ok (Op.run_modify _ _), Op.run_bind_ok (Op.run_read _)]
    split
    · exact ⟨_, reaped, .reaped usable⟩
    · obtain ⟨o', after, bids⟩ := reaped.acquireConcurrency cost requestId config
      exact ⟨o', after, bids.of_reaped usable⟩

theorem LedgerAt.tryAdmitConcurrency (at_ : LedgerAt s key now o) (queueKey freezeKey : String) (cost : JsNumber)
    (requestId : String) (config : ConcurrencyConfig) (ttl : JsNumber) :
    ∃ o', LedgerAt ((LedgerCall.tryAdmitConcurrency queueKey freezeKey cost requestId config ttl).exec key now s).2
        key now o' ∧
      Bids ⟨requestId, cost, config, ttl⟩ now o
        ((LedgerCall.tryAdmitConcurrency queueKey freezeKey cost requestId config ttl).exec key now s).1 o' := by
  simp only [LedgerCall.exec, Dianemo.tryAdmitConcurrency]
  cases normal : normalizeStateTtlSeconds ttl with
  | error e =>
    rw [Op.run_bind_error (Op.run_lift _ _)]
    exact ⟨o, at_, .untouched⟩
  | ok keyTtl =>
    have whole := normalizeStateTtlSeconds_whole normal
    rw [Op.run_bind_ok (Op.run_lift _ _), Op.run_bind_ok (Op.run_read s)]
    split
    · exact ⟨o, at_, .untouched⟩
    · rename_i open_
      rw [not_or, not_or, Bool.not_eq_true, Option.isSome_eq_false_iff, Option.isNone_iff_eq_none] at open_
      have usable := open_.2.1
      have reaped := at_.reaped usable
      have fits := reaped.fits usable requestId
      rw [Op.run_bind_ok (Op.run_modify _ _), Op.run_bind_ok (Op.run_read _)]
      by_cases full : config.maxConcurrency <
          concurrencyCost (reapConcurrency s key (fin now - config.requestTtl) now) key requestId now + cost
      · simp only [if_pos full]
        exact ⟨_, reaped, .reaped usable⟩
      · simp only [if_neg full]
        rw [Op.run_bind_ok (claimSlot_run whole _ _ _ _ _)]
        exact ⟨_, reaped.taken usable requestId whole, .granted usable normal (fits.mp full)⟩

theorem bid_of_avoid {spec : MultiLimitSpec} (avoid : ∀ k ∈ spec.home, k ∉ ledgerKeys key) (ttl : JsNumber) :
    spec.bid key ttl = none := by
  cases spec with
  | tokenBucket b => rfl
  | concurrency c =>
    have ne : c.key ≠ key := by
      intro same
      exact avoid c.key (by simp [MultiLimitSpec.home]) (Or.inl same)
    simp [MultiLimitSpec.bid, ne]

theorem bids_of_avoid {specs : List MultiLimitSpec}
    (avoid : ∀ spec ∈ specs, ∀ k ∈ spec.footprint, k ∉ ledgerKeys key)
    (ttl : JsNumber) : specs.filterMap (MultiLimitSpec.bid key ttl) = [] := by
  rw [List.filterMap_eq_nil_iff]
  intro spec member
  exact bid_of_avoid (fun k home => avoid spec member k (spec.home_subset home)) ttl

/-- A claim names the ledger once or not at all. -/
theorem SlotsApart.split {specs : List MultiLimitSpec} (apart : SlotsApart key specs) :
    (∀ spec ∈ specs, ∀ k ∈ spec.footprint, k ∉ ledgerKeys key) ∨
      ∃ early c late, specs = early ++ .concurrency c :: late ∧ c.key = key ∧
        ∀ spec ∈ early ++ late, ∀ k ∈ spec.footprint, k ∉ ledgerKeys key := by
  obtain ⟨once, each⟩ := apart
  by_cases home : ∃ c, MultiLimitSpec.concurrency c ∈ specs ∧ c.key = key
  · right
    obtain ⟨c, member, same⟩ := home
    obtain ⟨early, late, rfl⟩ := List.append_of_mem member
    refine ⟨early, c, late, rfl, same, ?_⟩
    intro spec found
    have inside : spec ∈ early ++ MultiLimitSpec.concurrency c :: late := by
      rcases List.mem_append.mp found with left | right
      · exact List.mem_append_left _ left
      · exact List.mem_append_right _ (List.mem_cons_of_mem _ right)
    refine (each spec inside).resolve_left ?_
    rintro ⟨other, rfl, again⟩
    have own : (MultiLimitSpec.concurrency c).bid key 86400 = some ⟨c.slotId, c.cost, c.config, 86400⟩ := by
      simp [MultiLimitSpec.bid, same]
    have second : (⟨other.slotId, other.cost, other.config, 86400⟩ : Bid) ∈
        (early ++ late).filterMap (MultiLimitSpec.bid key 86400) := by
      refine List.mem_filterMap.mpr ⟨_, found, ?_⟩
      simp [MultiLimitSpec.bid, again]
    rw [List.filterMap_append, List.filterMap_cons, own, List.length_append, List.length_cons] at once
    rw [List.filterMap_append] at second
    have some_ := List.length_pos_of_mem second
    rw [List.length_append] at some_
    omega
  · left
    intro spec member
    refine (each spec member).resolve_left ?_
    rintro ⟨c, rfl, same⟩
    exact home ⟨c, member, same⟩

theorem bids_of_split {early late : List MultiLimitSpec} {c : ConcurrencySpec} (home : c.key = key)
    (away : ∀ spec ∈ early ++ late, ∀ k ∈ spec.footprint, k ∉ ledgerKeys key) (ttl : JsNumber) :
    (early ++ .concurrency c :: late).filterMap (MultiLimitSpec.bid key ttl) =
      [⟨c.slotId, c.cost, c.config, ttl⟩] := by
  rw [List.forall_mem_append] at away
  rw [List.filterMap_append, List.filterMap_cons, bids_of_avoid away.1, bids_of_avoid away.2]
  simp [MultiLimitSpec.bid, home]

theorem SlotsApart.untouched {specs : List MultiLimitSpec} (apart : SlotsApart key specs) (ttl : JsNumber) :
    (specs.filterMap (MultiLimitSpec.bid key ttl) = [] ∧ o = o) ∨
      ∃ b, specs.filterMap (MultiLimitSpec.bid key ttl) = [b] ∧ Bids b now o false o := by
  rcases apart.split with away | ⟨early, c, late, rfl, home, away⟩
  · exact Or.inl ⟨bids_of_avoid away ttl, rfl⟩
  · exact Or.inr ⟨_, bids_of_split home away ttl, .untouched⟩

/-- One attempt at several budgets, as the ledger sees it. -/
theorem LedgerAt.attempt (at_ : LedgerAt s key now o) {specs : List MultiLimitSpec} (apart : SlotsApart key specs)
    {claims : List ClaimSpec} (made : claimMarks specs = .ok claims) {ttlSeconds : JsNumber} {ttl : ℚ}
    (normal : normalizeStateTtlSeconds ttlSeconds = .ok ttl) {admitted : Bool} {s' : State}
    (attempt : Attempt claims ttl now s admitted s') :
    ∃ o', LedgerAt s' key now o' ∧
      ((specs.filterMap (MultiLimitSpec.bid key ttlSeconds) = [] ∧ o' = o) ∨
        ∃ b, specs.filterMap (MultiLimitSpec.bid key ttlSeconds) = [b] ∧ Bids b now o admitted o') := by
  obtain ⟨same, normals⟩ := claimMarks_normal made
  have whole := normalizeStateTtlSeconds_whole normal
  rcases apart.split with away | ⟨early, c, late, split, home, away⟩
  · refine ⟨o, at_.congr (attempt.keeps normals ?_), Or.inl ⟨bids_of_avoid away _, rfl⟩⟩
    intro c member
    rw [← same] at away
    exact away c.spec (List.mem_map_of_mem member)
  · rw [split] at same
    obtain ⟨before, after, rfl, mapped, rest⟩ := List.map_eq_append_iff.mp same
    obtain ⟨claim, others, rfl, here, mappedLate⟩ := List.map_eq_cons_iff.mp rest
    cases claim with
    | tokenBucket b mark => cases here
    | concurrency c' =>
      cases here
      have avoid : ∀ other ∈ before ++ others, ∀ k ∈ other.spec.footprint, k ∉ ledgerKeys key := by
        intro other member
        refine away other.spec ?_
        rw [← mapped, ← mappedLate, ← List.map_append]
        exact List.mem_map_of_mem member
      have focus := attempt.focus normals (Or.inl home) avoid
      have drawn := bids_of_split home away ttlSeconds
      rw [← split] at drawn
      subst home
      cases focus with
      | skipped keeps => exact ⟨o, at_.congr keeps, Or.inr ⟨_, drawn, .untouched⟩⟩
      | planned usable first rest =>
        exact ⟨_, ((at_.congr first).reaped usable).congr rest, Or.inr ⟨_, drawn, .reaped usable⟩⟩
      | refused usable first rest last =>
        exact ⟨_, ((at_.congr first).reaped usable).congr (rest.trans last), Or.inr ⟨_, drawn, .reaped usable⟩⟩
      | admitted usable first fits rest last =>
        have reaped := (at_.congr first).reaped usable
        have covers := (reaped.fits usable c.slotId).mp (of_decide_eq_true fits)
        exact ⟨_, ((reaped.congr rest).taken usable c.slotId whole).congr last,
          Or.inr ⟨_, drawn, .granted usable normal covers⟩⟩

/-- The ledger once the slots of `ids` have been given back in turn. -/
def Ledger.released (ids : List String) (o : Option Ledger) : Option Ledger :=
  ids.foldl (fun o id => o.bind (·.without [id])) o

theorem LedgerAt.releaseSpecs (at_ : LedgerAt s key now o) {specs : List MultiLimitSpec}
    (apart : ∀ spec ∈ specs, (∃ c, spec = .concurrency c ∧ c.key = key) ∨ ∀ k ∈ spec.home, k ∉ ledgerKeys key) :
    LedgerAt (specs.foldl (fun s spec => releaseSpec s spec now) s) key now
      (Ledger.released ((specs.filterMap (MultiLimitSpec.bid key 86400)).map Bid.slotId) o) := by
  induction specs generalizing s o with
  | nil => exact at_
  | cons spec rest ih =>
    rw [List.forall_mem_cons] at apart
    rcases apart.1 with ⟨c, rfl, home⟩ | away
    · have own : (MultiLimitSpec.concurrency c).bid key 86400 = some ⟨c.slotId, c.cost, c.config, 86400⟩ := by
        simp [MultiLimitSpec.bid, home]
      rw [List.filterMap_cons, own]
      refine ih ?_ apart.2
      subst home
      exact at_.release c.slotId
    · rw [List.filterMap_cons, bid_of_avoid away]
      refine ih (at_.congr ?_) apart.2
      cases spec with
      | tokenBucket b => exact Keeps.creditTokens (away _ (by simp [MultiLimitSpec.home])) s _ _ _
      | concurrency c =>
        exact Keeps.releaseSlot (away _ (by simp [MultiLimitSpec.home]))
          (away _ (by simp [MultiLimitSpec.home])) s _

theorem LedgerAt.touchConcurrency (at_ : LedgerAt s key now o) (slotId : String) (ttlSeconds : JsNumber) :
    (((LedgerCall.touchConcurrency slotId ttlSeconds).exec key now s).1 = false ∧
        ((LedgerCall.touchConcurrency slotId ttlSeconds).exec key now s).2 = s) ∨
      (((LedgerCall.touchConcurrency slotId ttlSeconds).exec key now s).1 = true ∧
        ∃ l ttl, o = some l ∧ slotId ∈ l.slots ∧ normalizeStateTtlSeconds ttlSeconds = .ok ttl ∧
          LedgerAt ((LedgerCall.touchConcurrency slotId ttlSeconds).exec key now s).2 key now
            (some (l.touch slotId (now + ttl * 1000) now))) := by
  have ne := costsKey_ne key
  simp only [LedgerCall.exec, Dianemo.touchConcurrency]
  cases normal : normalizeStateTtlSeconds ttlSeconds with
  | error e =>
    rw [Op.run_bind_error (Op.run_lift _ _)]
    exact Or.inl ⟨rfl, rfl⟩
  | ok ttl =>
    have whole := normalizeStateTtlSeconds_whole normal
    have later : now < now + ttl * 1000 := by linarith [whole.pos]
    rw [Op.run_bind_ok (Op.run_lift _ _), Op.run_bind_ok (Op.run_read s)]
    cases o with
    | none =>
      simp only [State.zset, at_.1]
      exact Or.inl ⟨rfl, rfl⟩
    | some l =>
      obtain ⟨e, c, slots, costs, is⟩ := at_
      simp only [State.zset, slots, Option.bind_some, is.slots]
      by_cases member : slotId ∈ l.slots
      · right
        have held : (l.slots.lookup slotId).isNone = false := by
          rw [Option.isNone_eq_false_iff, AList.lookup_isSome]
          exact member
        simp only [held, Bool.false_eq_true, if_false]
        have same : s.entry key now = e := by simp [State.entry, slots]
        have alive := (State.live_eq_some.mp slots).2
        have scored : (s.setScore key now slotId now).live key now =
            some { e with zset := some (l.slots.insert slotId now) } := by
          simp only [State.setScore, same, is.slots, Option.getD_some]
          exact State.live_put_self alive
        rw [Op.run_bind_ok (Op.run_modify _ _), Op.run_bind_ok (expire_put whole scored),
          Op.run_bind_ok (Op.run_read _)]
        have put : s.setScore key now slotId now =
            s.put key { e with zset := some (l.slots.insert slotId now) } := by
          simp only [State.setScore, same, is.slots, Option.getD_some]
        rw [put, State.put_put]
        have kept : (s.put key { e with
            zset := some (l.slots.insert slotId now)
            expiresAt := some (now + ttl * 1000) }).live (costsKey key) now = some c :=
          (State.live_congr (State.put_store_ne ne) now).trans costs
        simp only [kept, Option.isSome_some, if_true]
        rw [Op.run_bind_ok (expire_put whole kept)]
        refine ⟨rfl, l, ttl, rfl, member, rfl, ?_⟩
        obtain ⟨h, hash, reads⟩ := is.costs
        refine ⟨_, _, (State.live_congr (State.put_store_ne ne.symm) now).trans
          (State.live_put_self (expired_of_lt rfl later)),
            State.live_put_self (expired_of_lt rfl later), rfl, is.sorted,
          ⟨h, hash, ?_⟩, is.hashed, rfl, rfl⟩
        intro id
        rw [reads]
        by_cases own : id = slotId
        · subst own
          simp [Ledger.touch, member]
        · simp [Ledger.touch, own]
      · left
        have absent : (l.slots.lookup slotId).isNone = true := by
          rw [Option.isNone_iff_eq_none, AList.lookup_eq_none]
          exact member
        simp only [absent, if_true]
        exact ⟨rfl, rfl⟩

/-- What a call may have done to the ledger, given what it reports. -/
def LedgerCall.Does (key : String) (now : ℚ) (o : Option Ledger) (report : Bool) (o' : Option Ledger) :
    LedgerCall → Prop
  | .releaseConcurrency requestId => report = false ∧ o' = Ledger.released [requestId] o
  | .releaseMultiLimit specs =>
    report = false ∧ o' = Ledger.released ((specs.filterMap (MultiLimitSpec.bid key 86400)).map Bid.slotId) o
  | .touchConcurrency slotId ttlSeconds => (report = false ∧ o' = o) ∨
      (report = true ∧ ∃ l ttl, o = some l ∧ slotId ∈ l.slots ∧ normalizeStateTtlSeconds ttlSeconds = .ok ttl ∧
        o' = some (l.touch slotId (now + ttl * 1000) now))
  | .getConcurrencyState _ => report = false ∧ o' = o
  | .elsewhere _ => report = false ∧ o' = o
  | call => (call.bids key = [] ∧ o' = o) ∨ ∃ b, call.bids key = [b] ∧ Bids b now o report o'

/-- Every call, as the ledger sees it. -/
theorem LedgerAt.call (at_ : LedgerAt s key now o) {call : LedgerCall} (apart : call.Apart key now s) :
    ∃ o', LedgerAt (call.exec key now s).2 key now o' ∧ call.Does key now o (call.exec key now s).1 o' := by
  cases call with
  | acquireConcurrency cost requestId config =>
    obtain ⟨o', after, bids⟩ := at_.acquireConcurrency cost requestId config
    exact ⟨o', after, Or.inr ⟨_, rfl, bids⟩⟩
  | acquireQueuedConcurrency metadataKey cost requestId config =>
    obtain ⟨o', after, bids⟩ := at_.acquireQueuedConcurrency metadataKey cost requestId config
    exact ⟨o', after, Or.inr ⟨_, rfl, bids⟩⟩
  | tryAdmitConcurrency queueKey freezeKey cost requestId config ttl =>
    obtain ⟨o', after, bids⟩ := at_.tryAdmitConcurrency queueKey freezeKey cost requestId config ttl
    exact ⟨o', after, Or.inr ⟨_, rfl, bids⟩⟩
  | acquireMultiLimit specs =>
    rcases acquireMultiLimit_run specs now s with ⟨e, run⟩ | ⟨claims, result, s', made, run, attempt⟩
    · simp only [LedgerCall.exec, run]
      exact ⟨o, at_, apart.untouched 86400⟩
    · simp only [LedgerCall.exec, run]
      exact at_.attempt apart made normalizeStateTtlSeconds_day attempt
  | tryAdmitMultiLimit queueKey freezeKeys specs ttl =>
    rcases tryAdmitMultiLimit_run queueKey freezeKeys specs ttl now s with
      ⟨e, run⟩ | run | ⟨keyTtl, claims, admitted, s', normal, made, run, attempt⟩
    · simp only [LedgerCall.exec, run]
      exact ⟨o, at_, apart.untouched ttl⟩
    · simp only [LedgerCall.exec, run]
      exact ⟨o, at_, apart.untouched ttl⟩
    · simp only [LedgerCall.exec, run]
      exact at_.attempt apart made normal attempt
  | releaseConcurrency requestId => exact ⟨_, at_.release requestId, rfl, rfl⟩
  | releaseMultiLimit specs => exact ⟨_, at_.releaseSpecs apart, rfl, rfl⟩
  | touchConcurrency slotId ttlSeconds =>
    rcases at_.touchConcurrency slotId ttlSeconds
      with ⟨refused, same⟩ | ⟨touched, l, ttl, rfl, member, normal, after⟩
    · rw [same]
      exact ⟨o, at_, Or.inl ⟨refused, rfl⟩⟩
    · exact ⟨_, after, Or.inr ⟨touched, l, ttl, rfl, member, normal, rfl⟩⟩
  | getConcurrencyState requestTtl =>
    refine ⟨o, ?_, ?_, rfl⟩
    · simp only [LedgerCall.exec, Dianemo.getConcurrencyState]
      split <;> exact at_
    · simp only [LedgerCall.exec, Dianemo.getConcurrencyState]
      split <;> rfl
  | elsewhere after => exact ⟨o, at_.congr apart, rfl, rfl⟩

end Claims

end Dianemo
