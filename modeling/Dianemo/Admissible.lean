import Dianemo.Cap
import Dianemo.Ceilings
import Dianemo.Waiting

namespace Dianemo

open JsNumber

/-- Nothing of the budget is spent or held. -/
def MultiLimitSpec.Whole (s : State) (now : ℚ) : MultiLimitSpec → Prop
  | .tokenBucket spec => (storedBucket s spec.key spec.config now).tokens = spec.config.maxTokens
  | .concurrency spec => ∀ z, s.zset spec.key now = some z → z = ∅

/-- The budget is usable, and what is asked of it is no more than it could ever hold. -/
def MultiLimitSpec.Within : MultiLimitSpec → Prop
  | .tokenBucket spec => ∃ (r : Rate) (c : ℚ), spec.config = r.config ∧ spec.cost = fin c ∧ 0 ≤ c ∧ c ≤ r.maxTokens
  | .concurrency spec => ∃ limit lease c : ℚ, spec.config = ⟨limit, lease⟩ ∧ 0 < limit ∧ 0 < lease ∧
      spec.cost = fin c ∧ 0 ≤ c ∧ c ≤ limit

section Budgets

variable {s s' : State} {key : String} {now : ℚ} {claims : List ClaimSpec} {specs : List MultiLimitSpec}

theorem zset_dropIfEmpty (s : State) (key other : String) (now : ℚ) {z : Scores}
    (held : (s.dropIfEmpty other).zset key now = some z) : s.zset key now = some z := by
  by_cases same : key = other
  · subst same
    cases found : s.live key now with
    | none => simp [State.zset, live_dropIfEmpty_none found] at held
    | some e =>
      rw [State.zset, live_dropIfEmpty_self found] at held
      rw [State.zset, found]
      split at held
      · cases held
      · exact held
  · rw [State.zset, live_dropIfEmpty_ne same] at held
    exact held

/-- A ledger with no slots has none once it is reaped. -/
theorem zset_reap (none_ : ∀ z, s.zset key now = some z → z = ∅) (expireTime : JsNumber) {z : Scores}
    (held : (reapConcurrency s key expireTime now).zset key now = some z) : z = ∅ := by
  unfold reapConcurrency at held
  split at held
  · exact none_ z held
  · rename_i e found
    split at held
    · exact none_ z held
    · rename_i slots scored
      have empty : slots = ∅ := none_ slots (by simp [State.zset, found, scored])
      have before := zset_dropIfEmpty _ _ _ _ (zset_dropIfEmpty _ _ _ _ held)
      have put_ : (s.put key { e with zset := some (eraseAll slots (staleSlots slots expireTime)) }).zset key now = some z := by
        split at before
        · exact before
        · rw [State.zset, State.live_congr (State.put_store_ne (costsKey_ne key).symm)] at before
          exact before
      have alive : ({ e with zset := some (eraseAll slots (staleSlots slots expireTime)) } : Entry).expired now = false :=
        (State.live_eq_some.mp found).2
      rw [State.zset, State.live_put_self alive, empty] at put_
      cases put_
      rfl

theorem concurrencyCost_empty (none_ : ∀ z, s.zset key now = some z → z = ∅) (id : String) :
    concurrencyCost s key id now = fin 0 := by
  unfold concurrencyCost
  cases held : s.zset key now with
  | none => rw [zero_eq]
  | some z =>
    rw [none_ z held]
    simp [sumCosts]

theorem MultiLimitSpec.Whole.congr {spec : MultiLimitSpec} (whole : spec.Whole s now)
    (keeps : Keeps {k | k ∈ spec.home} now s s') : spec.Whole s' now := by
  cases spec with
  | tokenBucket spec =>
    have same : s'.live spec.key now = s.live spec.key now := keeps.live spec.key (by simp [home])
    have read : ∀ field, s'.hget spec.key field now = s.hget spec.key field now := fun field => by
      rw [State.hget, State.hget, State.hash, State.hash, same]
    change parseFiniteStored (s'.hget spec.key "tokens" now) spec.config.maxTokens = _
    rw [read]
    exact whole
  | concurrency spec =>
    have same : s'.live spec.key now = s.live spec.key now := keeps.live spec.key (by simp [home])
    intro z held
    rw [State.zset, same] at held
    exact whole z held

/-- A whole budget admits what is within it. -/
theorem ClaimSpec.fits_whole {c : ClaimSpec} (whole : c.spec.Whole s now) (within : c.spec.Within) :
    c.unusable = none ∧ c.fits now (c.check now s) = true := by
  cases c with
  | tokenBucket spec mark =>
    obtain ⟨r, cost, config, charged, nonneg, fits⟩ := within
    simp only [ClaimSpec.unusable, ClaimSpec.fits, ClaimSpec.check, config, charged]
    have full : (storedBucket s spec.key r.config now).tokens = r.config.maxTokens := by
      have full := whole
      simp only [ClaimSpec.spec, MultiLimitSpec.Whole, config] at full
      exact full
    refine ⟨r.usable nonneg, ?_⟩
    rw [refill_full full]
    exact coversCost_of_le r nonneg fits
  | concurrency spec =>
    obtain ⟨limit, lease, cost, config, positive, lives, charged, nonneg, fits⟩ := within
    have empty := concurrencyCost_empty (fun _ => zset_reap whole (fin now - spec.config.requestTtl)) spec.slotId
    refine ⟨unusableSlot_none.mpr ⟨limit, cost, lease, by rw [config], positive, charged, nonneg, by rw [config], lives⟩, ?_⟩
    refine decide_eq_true ?_
    change ¬ spec.config.maxConcurrency <
      concurrencyCost (reapConcurrency s spec.key (fin now - spec.config.requestTtl) now) spec.key spec.slotId now + spec.cost
    rw [empty, charged, config, add_fin, zero_add, fin_lt_fin, not_lt]
    exact fits

/-- So do several that share no key, each checked in its turn. -/
theorem allFit_whole (apart : (claims.map ClaimSpec.spec).Pairwise MultiLimitSpec.HomesApart)
    (whole : ∀ c ∈ claims, c.spec.Whole s now) (within : ∀ c ∈ claims, c.spec.Within) :
    allFit now claims s = true := by
  induction claims generalizing s with
  | nil => rfl
  | cons c rest ih =>
    rw [List.map_cons, List.pairwise_cons] at apart
    rw [List.forall_mem_cons] at whole within
    rw [allFit, (c.fits_whole whole.1 within.1).2, Bool.true_and]
    refine ih apart.2 ?_ within.2
    intro other member
    refine (whole.2 other member).congr ?_
    have away := apart.1 other.spec (List.mem_map_of_mem member)
    cases c with
    | tokenBucket spec mark => exact Keeps.refl _ now s
    | concurrency spec =>
      exact Keeps.reapConcurrency (away spec.key (by simp [ClaimSpec.spec, MultiLimitSpec.home]))
        (away (costsKey spec.key) (by simp [ClaimSpec.spec, MultiLimitSpec.home])) s _

/-- Several whole budgets give what is within them. -/
theorem acquireMultiLimit_whole (made : claimMarks specs = .ok claims)
    (apart : specs.Pairwise MultiLimitSpec.HomesApart)
    (whole : ∀ spec ∈ specs, spec.Whole s now) (within : ∀ spec ∈ specs, spec.Within) :
    ∃ result s', (acquireMultiLimit specs now).run s = (.ok result, s') ∧ result.acquired = true := by
  obtain ⟨same, normals⟩ := claimMarks_normal made
  have ready : ∀ c ∈ claims, c.spec.Whole s now :=
    fun c member => whole c.spec (by rw [← same]; exact List.mem_map_of_mem member)
  have fine : ∀ c ∈ claims, c.spec.Within := fun c member =>
    within c.spec (by rw [← same]; exact List.mem_map_of_mem member)
  obtain ⟨s', run, -⟩ := commitPlan_attempt WholeTtl.day normals now s
  refine ⟨(planMultiLimit now claims {} s).1.report, s', ?_, ?_⟩
  · rw [acquireMultiLimit, Op.run_bind_ok (by rw [made]; rfl), Op.run_bind_ok (by rfl),
      ofNat_eq, Op.run_bind_ok run]
    rfl
  · rw [← same] at apart
    rcases planMultiLimit_cases now claims {} rfl s with stopped | drawn
    · obtain ⟨early, c, late, rfl, -, unusable, -⟩ := stopped
      have member : c ∈ early ++ c :: late := by simp
      rw [(c.fits_whole (ready c member) (fine c member)).1] at unusable
      cases unusable
    · obtain ⟨-, error, -, acquired, -⟩ := drawn
      rw [Plan.report_acquired, error, acquired, allFit_whole apart ready fine]
      rfl

/-- A full bucket gives what is within it. -/
theorem acquireTokens_whole {spec : TokenBucketSpec} {mark : Option ClaimMark} {claim : Option (String × ℚ)}
    (made : claimMark mark = .ok claim) (whole : (MultiLimitSpec.tokenBucket spec).Whole s now)
    (within : (MultiLimitSpec.tokenBucket spec).Within) :
    ∃ result s', (acquireTokens spec.key spec.cost spec.config mark now).run s = (.ok result, s') ∧
      result.acquired = true := by
  obtain ⟨r, cost, config, charged, nonneg, fits⟩ := within
  have full : (storedBucket s spec.key r.config now).tokens = r.config.maxTokens := by
    have full := whole
    simp only [MultiLimitSpec.Whole, config] at full
    exact full
  rw [config, charged, acquireTokens_run spec.key made nonneg, refill_full full,
    if_pos (coversCost_of_le r nonneg fits)]
  exact ⟨_, _, rfl, rfl⟩

/-- An empty ledger gives what is within it. -/
theorem acquireConcurrency_whole {spec : ConcurrencySpec} (whole : (MultiLimitSpec.concurrency spec).Whole s now)
    (within : (MultiLimitSpec.concurrency spec).Within) :
    ∃ result s', (acquireConcurrency spec.key spec.cost spec.slotId spec.config now).run s = (.ok result, s') ∧
      result.acquired = true := by
  obtain ⟨usable, fits⟩ := ClaimSpec.fits_whole (c := .concurrency spec) whole within
  have open_ := of_decide_eq_true fits
  simp only [ClaimSpec.unusable] at usable
  simp only [ClaimSpec.check] at open_
  simp only [acquireConcurrency, usable]
  rw [Op.run_bind_ok (Op.run_modify _ _), Op.run_bind_ok (Op.run_read _)]
  simp only [if_neg open_, ofNat_eq]
  rw [Op.run_bind_ok (claimSlot_run WholeTtl.day _ _ _ _ _)]
  exact ⟨_, _, rfl, rfl⟩

/-- So it does for an entry still in progress, whose hash is kept elsewhere. -/
theorem acquireQueuedConcurrency_whole {spec : ConcurrencySpec} {metadataKey : String}
    (whole : (MultiLimitSpec.concurrency spec).Whole s now) (within : (MultiLimitSpec.concurrency spec).Within)
    (elsewhere : metadataKey ∉ ledgerKeys spec.key)
    (waiting : s.hget metadataKey "status" now = some (.text "inProgress")) :
    ∃ result s', (acquireQueuedConcurrency spec.key metadataKey spec.cost spec.slotId spec.config now).run s = (.ok result, s') ∧
      result.acquired = true := by
  obtain ⟨usable, -⟩ := ClaimSpec.fits_whole (c := .concurrency spec) whole within
  simp only [ClaimSpec.unusable] at usable
  simp only [acquireQueuedConcurrency, usable]
  rw [Op.run_bind_ok (Op.run_modify _ _), Op.run_bind_ok (Op.run_read _)]
  have keeps : Keeps {metadataKey} now s (reapConcurrency s spec.key (fin now - spec.config.requestTtl) now) := by
    refine Keeps.reapConcurrency ?_ ?_ s _
    · exact fun same => elsewhere (Or.inl same.symm)
    · exact fun same => elsewhere (Or.inr same.symm)
  have still : (reapConcurrency s spec.key (fin now - spec.config.requestTtl) now).hget metadataKey "status" now =
      some (.text "inProgress") := by
    rw [State.hget, State.hash, keeps.live metadataKey rfl]
    exact waiting
  rw [if_neg (not_not.mpr still)]
  exact acquireConcurrency_whole (fun _ => zset_reap whole _) within

end Budgets

/-- More is asked of the budget than it could ever hold, a bucket's tolerance included. -/
def MultiLimitSpec.Beyond : MultiLimitSpec → Prop
  | .tokenBucket spec => ∃ (r : Rate) (c : ℚ), spec.config = r.config ∧ spec.cost = fin c ∧
      r.maxTokens * (1 + balanceTolerance) < c
  | .concurrency spec => ∃ limit c : ℚ, spec.config.maxConcurrency = fin limit ∧ spec.cost = fin c ∧ limit < c

section Refusals

variable {s : State} {key : String} {now : ℚ} {o : Option Ledger} {specs : List MultiLimitSpec}

/-- However full, a bucket does not cover a cost beyond its ceiling and tolerance. -/
theorem coversCost_beyond {r : Rate} {cost : ℚ} (beyond : r.maxTokens * (1 + balanceTolerance) < cost)
    (s : State) (key : String)
    (now : ℚ) : coversCost (refill s key r.config now).tokens (fin cost) r.config.maxTokens = false := by
  obtain ⟨l, drawn⟩ := refill_exact r s key now
  have held : (l.refill r now).gauge.level ≤ r.maxTokens := Level.refill_le r now l
  have above : r.maxTokens ≤ cost := by
    have allowance : 0 ≤ r.maxTokens * balanceTolerance := mul_nonneg r.maxTokens_pos.le balanceTolerance_pos.le
    linarith
  have ceiling : r.config.maxTokens = fin r.maxTokens := rfl
  rw [drawn, coversCost, ceiling, min_fin, min_eq_left above, mul_fin, sub_fin, decide_eq_false_iff_not]
  change ¬ fin (cost - r.maxTokens * balanceTolerance) ≤ fin (l.refill r now).gauge.level
  rw [fin_le_fin]
  linarith

theorem acquireTokens_beyond {spec : TokenBucketSpec} (beyond : (MultiLimitSpec.tokenBucket spec).Beyond)
    (mark : Option ClaimMark) :
    (granted AcquireTokensResult.acquired ((acquireTokens spec.key spec.cost spec.config mark now).run s)).1 = false := by
  obtain ⟨r, cost, config, charged, beyond⟩ := beyond
  have nonneg : 0 ≤ cost := by
    have tolerance := balanceTolerance_pos
    have room : 0 ≤ r.maxTokens * (1 + balanceTolerance) := mul_nonneg r.maxTokens_pos.le (by linarith)
    linarith
  rw [config, charged]
  cases made : claimMark mark with
  | error e =>
    rw [acquireTokens, Op.run_bind_error (by rw [made]; rfl)]
    rfl
  | ok claim =>
    rw [acquireTokens_run spec.key made nonneg, coversCost_beyond beyond]
    rfl

theorem fits_of_allFit {claims : List ClaimSpec} (fit : allFit now claims s = true)
    {c : ClaimSpec} (member : c ∈ claims) : ∃ u, c.fits now u = true := by
  induction claims generalizing s with
  | nil => cases member
  | cons head rest ih =>
    rw [allFit, Bool.and_eq_true] at fit
    rcases List.mem_cons.mp member with rfl | there
    · exact ⟨_, fit.1⟩
    · exact ih fit.2 there

theorem acquireMultiLimit_bucket_beyond {spec : TokenBucketSpec} (member : .tokenBucket spec ∈ specs)
    (beyond : (MultiLimitSpec.tokenBucket spec).Beyond) :
    (granted AcquireMultiLimitResult.acquired ((acquireMultiLimit specs now).run s)).1 = false := by
  obtain ⟨r, cost, config, charged, beyond⟩ := beyond
  rcases acquireMultiLimit_run specs now s with ⟨e, run⟩ | ⟨claims, result, s', made, run, attempt⟩
  · rw [run]
    rfl
  · rw [run]
    change result.acquired = false
    by_contra acquired
    rw [Bool.not_eq_false] at acquired
    rw [acquired] at attempt
    cases attempt with
    | admitted usable fit =>
      obtain ⟨same, -⟩ := claimMarks_normal made
      rw [← same] at member
      obtain ⟨c, found, shape⟩ := List.mem_map.mp member
      obtain ⟨u, fits⟩ := fits_of_allFit fit found
      cases c with
      | tokenBucket b mark =>
        cases shape
        simp only [ClaimSpec.fits, config, charged, coversCost_beyond beyond, Bool.false_eq_true] at fits
      | concurrency c => cases shape

/-- A ledger whose slots cost nothing less than nothing does not take a cost beyond its ceiling. -/
theorem Bids.beyond {b : Bid} {report : Bool} {o' : Option Ledger}
    (bids : Bids b now o report o') {bound limit cost : ℚ}
    (capped : ∀ l, o = some l → l.Capped bound) (ceiling : b.config.maxConcurrency = fin limit)
    (charged : b.cost = fin cost) (beyond : limit < cost) : report = false := by
  cases bids with
  | untouched => rfl
  | reaped usable => rfl
  | granted usable sized fits =>
    have held : 0 ≤ (Ledger.reaped b.config now o).elim 0 (·.others b.slotId) := by
      cases reaped : Ledger.reaped b.config now o with
      | none => exact le_rfl
      | some l =>
        obtain ⟨before, there, left⟩ := Option.bind_eq_some_iff.mp reaped
        have kept := (capped before there).without left
        refine List.sum_nonneg ?_
        intro paid member
        obtain ⟨id, among, rfl⟩ := List.mem_map.mp member
        exact kept.nonneg id (AList.mem_keys.mpr (List.mem_filter.mp among).1)
    rw [ceiling, charged, toRat_fin, toRat_fin] at fits
    linarith

end Refusals

/-- A limit that could not hold the amount: a bucket by more than its tolerance, a ledger at all. -/
def NamedRateLimitData.outOfReach (limit : NamedRateLimitData) (amount : JsNumber) : Prop :=
  match limit.data with
  | .requestLimit maxTokens .. => maxTokens * fin (1 + balanceTolerance) < amount
  | .concurrencyLimit maxConcurrency => maxConcurrency < amount
  | _ => False

/-- Some run of the ledger's operations, with any other traffic between, ends in the state. -/
def LedgerReached (key : String) (now : ℚ) (s : State) : Prop :=
  ∃ t start history, start.store key = none ∧ start.store (costsKey key) = none ∧
    (unboundRuns key).Valid t start history ∧
    (unboundRuns key).clock t history ≤ now ∧ (unboundRuns key).final start history = s

namespace MeteredClient

/-- Every bucket of the client is full, and every ledger empty. -/
structure Idle (client : MeteredClient) (grantId : Option String) (s : State) (now : ℚ) : Prop where
  buckets : ∀ limit ∈ client.rateLimit, ∀ maxTokens tokensToAdd interval maxDebt,
    limit.data = .requestLimit maxTokens tokensToAdd interval maxDebt →
      (storedBucket s (client.keys.getBucketKey limit.name grantId) ⟨maxTokens, tokensToAdd, interval⟩ now).tokens = maxTokens
  ledgers : ∀ limit ∈ client.rateLimit, ∀ maxConcurrency, limit.data = .concurrencyLimit maxConcurrency →
    ∀ z, s.zset (client.keys.getSlotKey limit.name grantId) now = some z → z = ∅

/-- The client's ledgers hold what operations on them can leave there. -/
def Reachable (client : MeteredClient) (grantId : Option String) (s : State) (now : ℚ) : Prop :=
  ∀ limit ∈ client.rateLimit, ∀ maxConcurrency, limit.data = .concurrencyLimit maxConcurrency →
    LedgerReached (client.keys.getSlotKey limit.name grantId) now s

/-- The marks a settling request leaves are ones the backend can keep; one that does not settle leaves none. -/
def Markable (client : MeteredClient) (request : ClaimingRequest) : Prop :=
  ∀ limit ∈ client.rateLimit, ∀ maxTokens tokensToAdd interval maxDebt,
    limit.data = .requestLimit maxTokens tokensToAdd interval maxDebt →
      ∃ claim, claimMark (client.markFor request ⟨maxTokens, tokensToAdd, interval⟩) = .ok claim

/-- No bucket asks its marks to outlive what a backend can store: neither the settle window nor the
time the bucket takes to refill from empty is longer. -/
def MarksLast (client : MeteredClient) : Prop :=
  ∀ limit ∈ client.rateLimit, ∀ maxTokens tokensToAdd interval maxDebt,
    limit.data = .requestLimit maxTokens tokensToAdd interval maxDebt →
      client.settleWindowMs ≤ fin (redisMaxTtlSeconds * 1000) ∧
        (maxTokens / tokensToAdd).ceil * interval ≤ fin (redisMaxTtlSeconds * 1000)

theorem markable_of_unsettling (client : MeteredClient) {request : ClaimingRequest}
    (unsettling : request.settles = false) : client.Markable request := by
  intro limit _ maxTokens tokensToAdd interval maxDebt _
  refine ⟨none, ?_⟩
  simp [markFor, unsettling, claimMark]

theorem settleWindowMs_usable (client : MeteredClient) :
    ∃ window : ℚ, client.settleWindowMs = fin window ∧ 0 < window := by
  have standing : ∃ window : ℚ, fin defaultSettleWindowMs = fin window ∧ 0 < window :=
    ⟨defaultSettleWindowMs, rfl, by norm_num [defaultSettleWindowMs]⟩
  unfold settleWindowMs
  cases client.settleWindow with
  | none => exact standing
  | some window =>
    simp only
    split
    · rename_i usable
      exact usable_iff.mp usable
    · exact standing

theorem normalizeStateTtlSeconds_iff {q : ℚ} (positive : 0 < q) :
    (∃ ttl, normalizeStateTtlSeconds (fin q) = .ok ttl) ↔ q ≤ redisMaxTtlSeconds := by
  have lasts : ¬ ((⌈q⌉ : ℤ) : ℚ) ≤ 0 := by exact_mod_cast not_le.mpr (Int.ceil_pos.mpr positive)
  by_cases bounded : q ≤ redisMaxTtlSeconds
  · refine iff_of_true ⟨(⌈q⌉ : ℤ), ?_⟩ bounded
    simp [normalizeStateTtlSeconds, normalizeTtlSeconds, not_lt.mpr bounded, not_le.mpr positive,
      lasts, bind, Except.bind]
  · refine iff_of_false ?_ bounded
    simp [normalizeStateTtlSeconds, normalizeTtlSeconds, not_le.mp bounded, bind, Except.bind]

/-- A bucket's mark can be kept just as long as the settle window and the refill are. -/
theorem markFor_ok (client : MeteredClient) {request : ClaimingRequest}
    (settles : request.settles = true) {refill : ℚ}
    {config : TokenBucketConfig}
    (takes : (config.maxTokens / config.tokensToAdd).ceil * config.interval = fin refill) :
    (∃ claim, claimMark (client.markFor request config) = .ok claim) ↔
      client.settleWindowMs ≤ fin (redisMaxTtlSeconds * 1000) ∧ fin refill ≤ fin (redisMaxTtlSeconds * 1000) := by
  obtain ⟨window, standing, positive⟩ := client.settleWindowMs_usable
  have longest : 0 < Max.max window refill / 1000 := div_pos (lt_max_of_lt_left positive) (by norm_num)
  have asked : client.markFor request config =
      some ⟨getSlotId request.requestId request.retries, fin (⌈Max.max window refill / 1000⌉ : ℤ)⟩ := by
    rw [markFor, if_neg (not_not.mpr settles)]
    simp only [takes, standing, max_fin, ofNat_eq, div_fin (show (1000 : ℚ) ≠ 0 by norm_num), ceil_fin]
  have spans : Max.max window refill ≤ redisMaxTtlSeconds * 1000 ↔
      ((⌈Max.max window refill / 1000⌉ : ℤ) : ℚ) ≤ redisMaxTtlSeconds := by
    have whole : redisMaxTtlSeconds = ((9200000000000000 : ℤ) : ℚ) := by norm_num [redisMaxTtlSeconds]
    rw [← div_le_iff₀ (by norm_num), whole, Int.cast_le, Int.ceil_le]
  rw [asked, standing, fin_le_fin, fin_le_fin, ← max_le_iff, spans,
    ← normalizeStateTtlSeconds_iff (by exact_mod_cast Int.ceil_pos.mpr longest), claimMark]
  constructor
  · rintro ⟨claim, made⟩
    cases sized : normalizeStateTtlSeconds (fin (⌈Max.max window refill / 1000⌉ : ℤ)) with
    | ok ttl => exact ⟨ttl, rfl⟩
    | error e =>
      simp only [sized] at made
      cases made
  · rintro ⟨ttl, sized⟩
    simp only [sized]
    exact ⟨_, rfl⟩

/-- The marks of a settling request can be kept just when none asks to outlive what a backend stores. -/
theorem markable_iff {client : MeteredClient} {request : ClaimingRequest}
    (accepted : rateLimitsProblem client.rateLimit = none) :
    client.Markable request ↔ (request.settles = true → client.MarksLast) := by
  by_cases settles : request.settles = true
  · have each : ∀ limit ∈ client.rateLimit, ∀ maxTokens tokensToAdd interval maxDebt,
        limit.data = .requestLimit maxTokens tokensToAdd interval maxDebt →
        ((∃ claim, claimMark (client.markFor request ⟨maxTokens, tokensToAdd, interval⟩) = .ok claim) ↔
          client.settleWindowMs ≤ fin (redisMaxTtlSeconds * 1000) ∧
            (maxTokens / tokensToAdd).ceil * interval ≤ fin (redisMaxTtlSeconds * 1000)) := by
      intro limit member maxTokens tokensToAdd interval maxDebt data
      have fine := ((rateLimitsProblem_none accepted).1 limit member).2
      rw [data] at fine
      obtain ⟨r, config⟩ := requestLimit_rate fine
      cases config
      have takes : (fin r.maxTokens / fin r.tokensToAdd).ceil * fin r.interval =
          fin ((⌈r.maxTokens / r.tokensToAdd⌉ : ℤ) * r.interval) := by
        rw [div_fin r.tokensToAdd_pos.ne', ceil_fin, mul_fin]
      rw [takes]
      exact client.markFor_ok settles takes
    constructor
    · intro markable _ limit member maxTokens tokensToAdd interval maxDebt data
      exact (each limit member _ _ _ _ data).mp (markable limit member _ _ _ _ data)
    · intro lasts limit member maxTokens tokensToAdd interval maxDebt data
      exact (each limit member _ _ _ _ data).mpr (lasts settles limit member _ _ _ _ data)
  · exact iff_of_true (client.markable_of_unsettling (Bool.eq_false_of_not_eq_true settles)) fun settled =>
      absurd settled settles

/-- Where the claim is made through the request's entry, the entry is still in progress. -/
def StillQueued (client : MeteredClient) (acquireQueued : Bool) (request : ClaimingRequest)
    (s : State) (now : ℚ) : Prop :=
  acquireQueued = true → ∀ limit most, client.rateLimit = [limit] → limit.data = .concurrencyLimit most →
    s.hget ((clientQueue client.keys.nspace).metadataKey request.requestId) "status" now = some (.text "inProgress")

/-- The call a client with one ledger claims by. -/
def slotCall (client : MeteredClient) (acquireQueued : Bool) (request : ClaimingRequest)
    (spec : ConcurrencySpec) : LedgerCall :=
  if acquireQueued then
    .acquireQueuedConcurrency ((clientQueue client.keys.nspace).metadataKey request.requestId) spec.cost spec.slotId spec.config
  else .acquireConcurrency spec.cost spec.slotId spec.config

/-- The call a claim comes down to. -/
inductive Calls (js : Conversions) (client : MeteredClient) (acquireQueued : Bool)
    (request : ClaimingRequest) (cost : JsonValue) (s : State) (now : ℚ) : Prop
  | bucket {limit spec amount} : client.rateLimit = [limit] → costFor js cost limit.name = .ok amount →
      client.chargedSpec request.grantId (getSlotId request.requestId request.retries) limit amount =
        some (.tokenBucket spec) →
      client.acquires js acquireQueued request cost now s = (granted AcquireTokensResult.acquired
        ((acquireTokens spec.key spec.cost spec.config (client.markFor request spec.config) now).run s)).1 →
      Calls js client acquireQueued request cost s now
  | slots {limit spec amount} : client.rateLimit = [limit] → costFor js cost limit.name = .ok amount →
      client.chargedSpec request.grantId (getSlotId request.requestId request.retries) limit amount =
        some (.concurrency spec) →
      client.acquires js acquireQueued request cost now s =
        ((client.slotCall acquireQueued request spec).exec spec.key now s).1 →
      Calls js client acquireQueued request cost s now
  | several {specs} :
      client.getLimitSpecs js request.grantId (getSlotId request.requestId request.retries) cost false = .ok specs →
      client.acquires js acquireQueued request cost now s = (granted AcquireMultiLimitResult.acquired
        ((acquireMultiLimit (client.withMarks request specs) now).run s)).1 →
      Calls js client acquireQueued request cost s now

section Claims

variable {js : Conversions} {client : MeteredClient} {grantId : Option String} {slotId : String} {cost : JsonValue}
  {limit : NamedRateLimitData} {spec : MultiLimitSpec} {specs : List MultiLimitSpec}
  {amount : JsNumber} {s : State} {now : ℚ} {acquireQueued : Bool} {request : ClaimingRequest}

/-- A budget with the mark its claim leaves. -/
def marked (client : MeteredClient) (request : ClaimingRequest) (spec : MultiLimitSpec) : MultiLimitSpec :=
  match spec with
  | .tokenBucket spec =>
    .tokenBucket { spec with mark := if request.settles then client.markFor request spec.config else spec.mark }
  | .concurrency spec => .concurrency spec

theorem withMarks_eq : client.withMarks request specs = specs.map (client.marked request) := by
  unfold withMarks
  by_cases settles : request.settles = true
  · rw [if_neg (not_not.mpr settles)]
    refine List.map_congr_left ?_
    intro spec _
    cases spec with
    | tokenBucket spec => simp [marked, settles]
    | concurrency spec => rfl
  · rw [if_pos settles]
    refine ((List.map_congr_left ?_).trans (List.map_id specs)).symm
    intro spec _
    cases spec with
    | tokenBucket spec => simp [marked, settles]
    | concurrency spec => rfl

theorem home_marked : (client.marked request spec).home = spec.home := by cases spec <;> rfl

theorem whole_marked (whole : spec.Whole s now) : (client.marked request spec).Whole s now := by
  cases spec <;> exact whole

theorem within_marked (within : spec.Within) : (client.marked request spec).Within := by cases spec <;> exact within

theorem claimMarks_ok (kept : ∀ b, MultiLimitSpec.tokenBucket b ∈ specs → ∃ claim, claimMark b.mark = .ok claim) :
    ∃ claims, claimMarks specs = .ok claims := by
  induction specs with
  | nil => exact ⟨[], rfl⟩
  | cons spec rest ih =>
    obtain ⟨claims, made⟩ := ih fun b member => kept b (List.mem_cons_of_mem _ member)
    cases spec with
    | tokenBucket b =>
      obtain ⟨claim, mark⟩ := kept b List.mem_cons_self
      exact ⟨.tokenBucket b claim :: claims, by rw [claimMarks, mark, made]; rfl⟩
    | concurrency c => exact ⟨.concurrency c :: claims, by rw [claimMarks, made]; rfl⟩

theorem claimMarks_kept {claims : List ClaimSpec} (made : claimMarks specs = .ok claims) {b : TokenBucketSpec}
    (member : .tokenBucket b ∈ specs) : ∃ claim, claimMark b.mark = .ok claim := by
  obtain ⟨same, normals⟩ := claimMarks_normal made
  rw [← same] at member
  obtain ⟨c, found, shape⟩ := List.mem_map.mp member
  cases c with
  | tokenBucket spec mark =>
    cases shape
    exact ⟨mark, normals _ found⟩
  | concurrency spec => cases shape

theorem Idle.whole (idle : client.Idle grantId s now) (member : limit ∈ client.rateLimit)
    (charged : client.chargedSpec grantId slotId limit amount = some spec) : spec.Whole s now := by
  unfold chargedSpec at charged
  split at charged
  · rename_i maxTokens tokensToAdd interval maxDebt data
    cases charged
    exact idle.buckets limit member _ _ _ _ data
  · rename_i maxConcurrency data
    cases charged
    exact idle.ledgers limit member _ data
  · cases charged

theorem chargedSpec_within (accepted : limit.data.problem = none) {c : ℚ} (nonneg : 0 ≤ c)
    (fits : fin c ≤ limit.ceilingOf)
    (charged : client.chargedSpec grantId slotId limit (fin c) = some spec) : spec.Within := by
  unfold chargedSpec at charged
  split at charged
  · rename_i maxTokens tokensToAdd interval maxDebt data
    cases charged
    rw [data] at accepted
    obtain ⟨r, config⟩ := requestLimit_rate accepted
    have ceiling : limit.ceilingOf = fin r.maxTokens := by
      have same : maxTokens = fin r.maxTokens := congrArg TokenBucketConfig.maxTokens config
      simp only [NamedRateLimitData.ceilingOf, data, same]
    rw [ceiling, fin_le_fin] at fits
    exact ⟨r, c, config, rfl, nonneg, fits⟩
  · rename_i maxConcurrency data
    cases charged
    rw [data] at accepted
    obtain ⟨most, rfl, positive⟩ := concurrencyLimit_ceiling accepted
    obtain ⟨lease, ttl, lives⟩ := client.requestTtl_usable
    simp only [NamedRateLimitData.ceilingOf, data, fin_le_fin] at fits
    exact ⟨most, lease, c, by rw [ttl], positive, lives, rfl, nonneg, fits⟩
  · cases charged

theorem chargedSpec_beyond (accepted : limit.data.problem = none) {c : ℚ} (out : limit.outOfReach (fin c))
    (charged : client.chargedSpec grantId slotId limit (fin c) = some spec) : spec.Beyond := by
  unfold chargedSpec at charged
  split at charged
  · rename_i maxTokens tokensToAdd interval maxDebt data
    cases charged
    rw [data] at accepted
    obtain ⟨r, config⟩ := requestLimit_rate accepted
    have same : maxTokens = fin r.maxTokens := congrArg TokenBucketConfig.maxTokens config
    simp only [NamedRateLimitData.outOfReach, data, same, mul_fin, fin_lt_fin] at out
    exact ⟨r, c, config, rfl, out⟩
  · rename_i maxConcurrency data
    cases charged
    rw [data] at accepted
    obtain ⟨most, rfl, -⟩ := concurrencyLimit_ceiling accepted
    simp only [NamedRateLimitData.outOfReach, data, fin_lt_fin] at out
    exact ⟨most, c, rfl, rfl, out⟩
  · cases charged

theorem chargedSpec_slots {spec : ConcurrencySpec}
    (charged : client.chargedSpec grantId slotId limit amount = some (.concurrency spec)) :
    spec.key = client.keys.getSlotKey limit.name grantId ∧ ∃ most, limit.data = .concurrencyLimit most := by
  unfold chargedSpec at charged
  split at charged
  · cases charged
  · rename_i most data
    cases charged
    exact ⟨rfl, most, data⟩
  · cases charged

theorem chargedSpec_of_outOfReach (out : limit.outOfReach amount) :
    ∃ spec, client.chargedSpec grantId slotId limit amount = some spec := by
  unfold NamedRateLimitData.outOfReach at out
  unfold chargedSpec
  cases data : limit.data with
  | requestLimit => exact ⟨_, rfl⟩
  | concurrencyLimit => exact ⟨_, rfl⟩
  | _ => simp [data] at out

/-- A call's answer passed on by `claim`. -/
theorem acquires_answer {α : Type} (op : Op α) (answer : α → ClaimResult)
    (calls : client.claim js acquireQueued request cost now = (do
      let result ← op
      pure (.ok (answer result)))) :
    client.acquires js acquireQueued request cost now s =
      (granted (fun result => (answer result).acquired) (op.run s)).1 := by
  unfold acquires
  rw [calls]
  cases ran : op.run s with
  | mk result s' =>
    cases result with
    | error e =>
      rw [Op.run_bind_error ran]
      rfl
    | ok result =>
      rw [Op.run_bind_ok ran]
      rfl

/-- A cost that names every metered limit reaches one of the backend's calls. -/
theorem calls (named : ∀ limit ∈ client.rateLimit, limit.isMetered = true →
    ∃ amount, costFor js cost limit.name = .ok amount) :
    Calls js client acquireQueued request cost s now := by
  have several : (∀ specs, client.getLimitSpecs js request.grantId (getSlotId request.requestId request.retries) cost false =
      .ok specs → client.claim js acquireQueued request cost now = (do
        let result ← acquireMultiLimit (client.withMarks request specs) now
        pure (.ok ⟨result.acquired, result.waitTime, result.error⟩))) →
          Calls js client acquireQueued request cost s now := by
    intro declared
    obtain ⟨specs, whole⟩ : ∃ specs, client.getLimitSpecs js request.grantId
      (getSlotId request.requestId request.retries) cost
      false = .ok specs := limitSpecs_ok named
    exact .several whole (acquires_answer _ _ (declared specs whole))
  rcases sole : client.rateLimit with - | ⟨⟨name, data⟩, - | ⟨second, rest⟩⟩
  · exact several fun specs whole => by simp only [claim, sole, soleRateLimit, whole]
  · cases data with
    | requestLimit maxTokens tokensToAdd interval maxDebt =>
      obtain ⟨amount, charged⟩ :=
        named ⟨name, .requestLimit maxTokens tokensToAdd interval maxDebt⟩ (by simp [sole]) rfl
      have declared : client.claim js acquireQueued request cost now = (do
          let result ← acquireTokens (client.keys.getBucketKey name request.grantId) amount
            ⟨maxTokens, tokensToAdd, interval⟩
            (client.markFor request ⟨maxTokens, tokensToAdd, interval⟩) now
          pure (.ok ⟨result.acquired, result.waitTime, result.error⟩)) := by
        rw [claim, sole]
        simp only [soleRateLimit]
        rw [show costFor js cost name = .ok amount from charged]
      exact .bucket sole charged rfl (acquires_answer _
        (fun result : AcquireTokensResult => ⟨result.acquired, result.waitTime, result.error⟩) declared)
    | concurrencyLimit maxConcurrency =>
      obtain ⟨amount, charged⟩ := named ⟨name, .concurrencyLimit maxConcurrency⟩ (by simp [sole]) rfl
      have declared : client.claim js acquireQueued request cost now = (do
          let result ← (if acquireQueued then
              acquireQueuedConcurrency (client.keys.getSlotKey name request.grantId)
                ((clientQueue client.keys.nspace).metadataKey request.requestId) amount
                (getSlotId request.requestId request.retries) ⟨maxConcurrency, client.requestTtl⟩ now
            else
              acquireConcurrency (client.keys.getSlotKey name request.grantId) amount
                (getSlotId request.requestId request.retries) ⟨maxConcurrency, client.requestTtl⟩ now)
          pure (.ok ⟨result.acquired, none, result.error⟩)) := by
        rw [claim, sole]
        simp only [soleRateLimit]
        rw [show costFor js cost name = .ok amount from charged]
      refine .slots sole charged rfl
        ((acquires_answer _ (fun result : AcquireConcurrencyResult => ⟨result.acquired, none, result.error⟩) declared).trans ?_)
      cases acquireQueued <;> rfl
    | sharedLimit => exact several fun specs whole => by simp only [claim, sole, soleRateLimit, whole]
    | noLimit => exact several fun specs whole => by simp only [claim, sole, soleRateLimit, whole]
    | unrecognised => exact several fun specs whole => by simp only [claim, sole, soleRateLimit, whole]
  · exact several fun specs whole => by simp only [claim, sole, soleRateLimit, whole]

/-- Every metered limit charges its amount, within its ceiling. -/
def Fits (js : Conversions) (client : MeteredClient) (cost : JsonValue) : Prop :=
  ∀ limit ∈ client.rateLimit, limit.isMetered = true →
    ∃ amount, costFor js cost limit.name = .ok amount ∧ amount ≤ limit.ceilingOf

theorem Fits.named (fits : client.Fits js cost) :
    ∀ limit ∈ client.rateLimit, limit.isMetered = true → ∃ amount, costFor js cost limit.name = .ok amount :=
  fun limit member metered => (fits limit member metered).imp fun _ charged => charged.1

theorem Fits.within (fits : client.Fits js cost) (accepted : rateLimitsProblem client.rateLimit = none)
    (spendable : unusableCostReason js cost = none) (member : limit ∈ client.rateLimit)
    (charged : costFor js cost limit.name = .ok amount)
    (same : client.chargedSpec grantId slotId limit amount = some spec) : spec.Within := by
  obtain ⟨c, rfl, nonneg⟩ := costFor_spendable spendable charged
  have metered : limit.isMetered = true := by
    unfold chargedSpec at same
    unfold NamedRateLimitData.isMetered
    cases data : limit.data <;> simp_all
  obtain ⟨amount, again, most⟩ := fits limit member metered
  rw [charged] at again
  cases again
  exact chargedSpec_within ((rateLimitsProblem_none accepted).1 limit member).2 nonneg most same

/-- The marks of a claim are ones the backend can keep. -/
theorem Markable.claimMarks (markable : client.Markable request)
    (made : client.getLimitSpecs js grantId slotId cost false = .ok specs) :
    ∃ claims, claimMarks (specs.map (client.marked request)) = .ok claims := by
  refine claimMarks_ok ?_
  intro b member
  obtain ⟨spec, found, shape⟩ := List.mem_map.mp member
  obtain ⟨limit, declared, amount, -, same⟩ := limitSpecs_mem made found
  unfold chargedSpec at same
  split at same
  · rename_i maxTokens tokensToAdd interval maxDebt data
    cases same
    cases shape
    by_cases settles : request.settles = true
    · simp only [settles, if_true]
      exact markable limit declared _ _ _ _ data
    · exact ⟨none, by simp [settles, claimMark]⟩
  · cases same
    cases shape
  · cases same

theorem homesApart_withMarks (accepted : rateLimitsProblem client.rateLimit = none)
    (made : client.getLimitSpecs js grantId slotId cost false = .ok specs) :
    (specs.map (client.marked request)).Pairwise MultiLimitSpec.HomesApart := by
  obtain ⟨fine, distinct⟩ := rateLimitsProblem_none accepted
  have apart := limitSpecs_apart (fun limit member => (fine limit member).1) distinct made
  refine List.pairwise_map.mpr (apart.imp ?_)
  intro a b away
  unfold MultiLimitSpec.HomesApart
  rw [home_marked, home_marked]
  exact away

/-- Several budgets nothing has been taken from give a claim that fits them. -/
theorem Fits.acquireMultiLimit (fits : client.Fits js cost) (accepted : rateLimitsProblem client.rateLimit = none)
    (spendable : unusableCostReason js cost = none) (idle : client.Idle grantId s now)
    (markable : client.Markable request)
    (made : client.getLimitSpecs js grantId slotId cost false = .ok specs) :
    ∃ result s', (Dianemo.acquireMultiLimit (client.withMarks request specs) now).run s = (.ok result, s') ∧
      result.acquired = true := by
  rw [withMarks_eq]
  obtain ⟨claims, marks⟩ := markable.claimMarks made
  refine acquireMultiLimit_whole marks (homesApart_withMarks accepted made) ?_ ?_
  · intro spec member
    obtain ⟨bare, found, rfl⟩ := List.mem_map.mp member
    obtain ⟨limit, declared, amount, -, same⟩ := limitSpecs_mem made found
    exact whole_marked (idle.whole declared same)
  · intro spec member
    obtain ⟨bare, found, rfl⟩ := List.mem_map.mp member
    obtain ⟨limit, declared, amount, charged, same⟩ := limitSpecs_mem made found
    exact within_marked (fits.within accepted spendable declared charged same)

/-- A claim that fits every ceiling, on budgets nothing has been taken from, comes through. -/
theorem Fits.acquires (fits : client.Fits js cost) (accepted : rateLimitsProblem client.rateLimit = none)
    (spendable : unusableCostReason js cost = none) (idle : client.Idle request.grantId s now)
    (markable : client.Markable request) (waiting : client.StillQueued acquireQueued request s now) :
    client.acquires js acquireQueued request cost now s = true := by
  have called : Calls js client acquireQueued request cost s now := calls fits.named
  cases called with
  | @bucket limit spec amount sole charged same answered =>
    have member : limit ∈ client.rateLimit := by simp [sole]
    obtain ⟨claim, made⟩ : ∃ claim, claimMark (client.markFor request spec.config) = .ok claim := by
      unfold chargedSpec at same
      split at same
      · rename_i maxTokens tokensToAdd interval maxDebt data
        cases same
        exact markable limit member _ _ _ _ data
      · cases same
      · cases same
    obtain ⟨result, s', ran, acquired⟩ :=
      acquireTokens_whole made (idle.whole member same) (fits.within accepted spendable member charged same)
    rw [answered, ran]
    exact acquired
  | @slots limit spec amount sole charged same answered =>
    have member : limit ∈ client.rateLimit := by simp [sole]
    have whole := idle.whole member same
    have within := fits.within accepted spendable member charged same
    rw [answered, slotCall]
    cases acquireQueued with
    | false =>
      obtain ⟨result, s', ran, acquired⟩ := acquireConcurrency_whole whole within
      simp only [Bool.false_eq_true, if_false, LedgerCall.exec, ran]
      exact acquired
    | true =>
      obtain ⟨home, most, data⟩ := chargedSpec_slots same
      have elsewhere : (clientQueue client.keys.nspace).metadataKey request.requestId ∉ ledgerKeys spec.key := by
        rw [home]
        exact metadataKey_not_ledger request.requestId limit.name
      obtain ⟨result, s', ran, acquired⟩ :=
        acquireQueuedConcurrency_whole whole within elsewhere (waiting rfl limit most sole data)
      simp only [if_true, LedgerCall.exec, ran]
      exact acquired
  | @several specs made answered =>
    obtain ⟨result, s', ran, acquired⟩ := fits.acquireMultiLimit accepted spendable idle markable made
    rw [answered, ran]
    exact acquired

/-- A claim that comes through has left every mark its request asks for. -/
theorem markable_of_acquires (named : ∀ limit ∈ client.rateLimit, limit.isMetered = true →
    ∃ amount, costFor js cost limit.name = .ok amount)
    (acquired : client.acquires js acquireQueued request cost now s = true) : client.Markable request := by
  intro limit member maxTokens tokensToAdd interval maxDebt data
  have called : Calls js client acquireQueued request cost s now := calls named
  cases called with
  | @bucket sole spec amount one alone same answered =>
    rw [one, List.mem_singleton] at member
    subst member
    rw [chargedSpec, data] at same
    cases same
    rw [answered] at acquired
    cases made : claimMark (client.markFor request ⟨maxTokens, tokensToAdd, interval⟩) with
    | ok claim => exact ⟨claim, rfl⟩
    | error e =>
      rw [acquireTokens, Op.run_bind_error (by rw [made]; rfl)] at acquired
      cases acquired
  | @slots sole spec amount one alone same answered =>
    rw [one, List.mem_singleton] at member
    subst member
    rw [chargedSpec, data] at same
    cases same
  | @several specs made answered =>
    by_cases settles : request.settles = true
    · obtain ⟨amount, charged⟩ := named limit member (by rw [NamedRateLimitData.isMetered, data])
      have among := mem_limitSpecs made member charged (by rw [chargedSpec, data])
      rw [answered, withMarks_eq] at acquired
      rcases acquireMultiLimit_run (specs.map (client.marked request)) now s
        with ⟨e, run⟩ | ⟨claims, result, s', normal, -, -⟩
      · rw [run] at acquired
        cases acquired
      · obtain ⟨claim, kept⟩ := claimMarks_kept normal (List.mem_map_of_mem among)
        rw [if_pos settles] at kept
        exact ⟨claim, kept⟩
    · exact client.markable_of_unsettling (Bool.eq_false_of_not_eq_true settles) limit member _ _ _ _ data

theorem bids_of_apart {key : String} (apart : specs.Pairwise MultiLimitSpec.HomesApart) (ttl : JsNumber) :
    (specs.filterMap (MultiLimitSpec.bid key ttl)).length ≤ 1 := by
  have homed : ∀ {spec : MultiLimitSpec} {b : Bid}, spec.bid key ttl = some b → key ∈ spec.home := by
    intro spec b bid
    cases spec with
    | tokenBucket b => cases bid
    | concurrency c =>
      simp only [MultiLimitSpec.bid] at bid
      split_ifs at bid with same
      simp [MultiLimitSpec.home, same]
  induction specs with
  | nil => simp
  | cons spec rest ih =>
    rw [List.pairwise_cons] at apart
    cases first : spec.bid key ttl with
    | none =>
      rw [List.filterMap_cons, first]
      exact ih apart.2
    | some b =>
      have others : rest.filterMap (MultiLimitSpec.bid key ttl) = [] := by
        rw [List.filterMap_eq_nil_iff]
        intro other member
        by_contra bidding
        obtain ⟨b', second⟩ := Option.ne_none_iff_exists'.mp bidding
        exact apart.1 other member key (homed first) (homed second)
      rw [List.filterMap_cons, first, others]
      exact le_rfl

/-- A claim reaches a ledger of the client only through the ledger's own limit. -/
theorem slotsApart_withMarks (accepted : rateLimitsProblem client.rateLimit = none)
    (made : client.getLimitSpecs js grantId slotId cost false = .ok specs) (member : limit ∈ client.rateLimit) :
    SlotsApart (client.keys.getSlotKey limit.name grantId) (client.withMarks request specs) := by
  have fine := (rateLimitsProblem_none accepted).1
  rw [withMarks_eq]
  constructor
  · exact bids_of_apart (homesApart_withMarks accepted made) 86400
  · intro spec among
    obtain ⟨bare, found, rfl⟩ := List.mem_map.mp among
    obtain ⟨other, declared, amount, -, same⟩ := limitSpecs_mem made found
    unfold chargedSpec at same
    split at same
    · cases same
      right
      intro k own
      simp only [marked, MultiLimitSpec.footprint, List.mem_cons, Option.mem_toList, Option.map_eq_some_iff] at own
      rcases own with rfl | ⟨mark, -, rfl⟩
      · have away : client.keys.getBucketKey other.name grantId ++ "" ∉
            ledgerKeys (client.keys.getSlotKey limit.name grantId) :=
          bucketKey_not_ledger other.name limit.name ""
        rwa [String.append_empty] at away
      · rw [claimMarkKey, String.append_assoc]
        exact bucketKey_not_ledger other.name limit.name _
    · cases same
      by_cases own : other.name = limit.name
      · left
        exact ⟨_, rfl, by rw [own]⟩
      · right
        intro k among
        simp only [marked, MultiLimitSpec.footprint, List.mem_cons, List.not_mem_nil, or_false] at among
        rcases among with rfl | rfl
        · exact slotKey_not_ledger (fine other declared).1 own
        · exact costsKey_not_ledger (fine limit member).1 own
    · cases same

/-- A claim of more than a ceiling, and a bucket's tolerance, never comes through. -/
theorem acquires_beyond (accepted : rateLimitsProblem client.rateLimit = none)
    (named : ∀ limit ∈ client.rateLimit, limit.isMetered = true → ∃ amount, costFor js cost limit.name = .ok amount)
    (member : limit ∈ client.rateLimit) {c : ℚ} (charged : costFor js cost limit.name = .ok (fin c))
    (out : limit.outOfReach (fin c)) (reachable : client.Reachable request.grantId s now) :
    client.acquires js acquireQueued request cost now s = false := by
  have fine := (rateLimitsProblem_none accepted).1
  have called : Calls js client acquireQueued request cost s now := calls named
  cases called with
  | @bucket sole spec amount one alone same answered =>
    rw [one, List.mem_singleton] at member
    subst member
    rw [charged] at alone
    cases alone
    have accepted : limit.data.problem = none := (fine limit (by simp [one])).2
    rw [answered]
    exact acquireTokens_beyond (chargedSpec_beyond accepted out same) _
  | @slots sole spec amount one alone same answered =>
    rw [one, List.mem_singleton] at member
    subst member
    rw [charged] at alone
    cases alone
    have accepted : limit.data.problem = none := (fine limit (by simp [one])).2
    obtain ⟨most, cost, ceiling, paid, beyond⟩ := chargedSpec_beyond accepted out same
    obtain ⟨home, declared, data⟩ := chargedSpec_slots same
    obtain ⟨t, start, history, untouched, uncounted, valid, later, rfl⟩ :=
      reachable limit (by simp [one]) declared data
    obtain ⟨o, at_, bound, capped⟩ := ledger_counted untouched uncounted valid later
    rw [answered, slotCall, home]
    cases acquireQueued with
    | false =>
      obtain ⟨o', -, bids⟩ := at_.acquireConcurrency spec.cost spec.slotId spec.config
      exact bids.beyond capped ceiling paid beyond
    | true =>
      obtain ⟨o', -, bids⟩ := at_.acquireQueuedConcurrency
        ((clientQueue client.keys.nspace).metadataKey request.requestId) spec.cost spec.slotId spec.config
      exact bids.beyond capped ceiling paid beyond
  | @several specs made answered =>
    rw [answered]
    have apart : SlotsApart (client.keys.getSlotKey limit.name request.grantId) (client.withMarks request specs) :=
      slotsApart_withMarks accepted made member
    obtain ⟨spec, same⟩ : ∃ spec, client.chargedSpec request.grantId
      (getSlotId request.requestId request.retries) limit (fin c) =
      some spec := chargedSpec_of_outOfReach out
    have beyond := chargedSpec_beyond (fine limit member).2 out same
    have among : client.marked request spec ∈ client.withMarks request specs := by
      rw [withMarks_eq]
      exact List.mem_map_of_mem (mem_limitSpecs made member charged same)
    cases spec with
    | tokenBucket spec => exact acquireMultiLimit_bucket_beyond among beyond
    | concurrency spec =>
      obtain ⟨most, cost, ceiling, paid, above⟩ := beyond
      obtain ⟨home, declared, data⟩ := chargedSpec_slots same
      obtain ⟨t, start, history, untouched, uncounted, valid, later, rfl⟩ := reachable limit member declared data
      obtain ⟨o, at_, bound, capped⟩ := ledger_counted untouched uncounted valid later
      obtain ⟨o', -, does⟩ :=
        at_.call (show (LedgerCall.acquireMultiLimit (client.withMarks request specs)).Apart _ now _ from apart)
      have bid : (⟨spec.slotId, spec.cost, spec.config, 86400⟩ : Bid) ∈ (client.withMarks request specs).filterMap
          (MultiLimitSpec.bid (client.keys.getSlotKey limit.name request.grantId) 86400) :=
        List.mem_filterMap.mpr ⟨client.marked request (.concurrency spec), among, if_pos home⟩
      rcases does with ⟨none_, -⟩ | ⟨b, one, bids⟩
      · change (client.withMarks request specs).filterMap _ = [] at none_
        rw [none_] at bid
        cases bid
      · change (client.withMarks request specs).filterMap _ = [b] at one
        rw [one, List.mem_singleton] at bid
        subst bid
        exact bids.beyond capped ceiling paid above

/-- The ceilings the client checks and the arithmetic the backend admits by settle the same costs: one
the client lets through is admitted where nothing is taken, as long as the marks of a settling request
can be stored, and one it reports out of a limit's reach is admitted nowhere. -/
theorem costProblem_decides (js : Conversions) (client : MeteredClient)
    (accepted : rateLimitsProblem client.rateLimit = none)
    (own : ∀ limit ∈ client.rateLimit, limit.data.isShared = false) {cost : JsonValue}
    (spendable : unusableCostReason js cost = none) (resolveShared : String → Option (List NamedRateLimitData)) :
    (costProblem js client.name cost (budgetLimitsFor client.rateLimit resolveShared) = .ok none →
      (∀ grantId slotId, ∃ specs, client.getLimitSpecs js grantId slotId cost false = .ok specs ∧
        ∀ s now, client.Idle grantId s now →
          ∃ result s', (acquireMultiLimit specs now).run s = (.ok result, s') ∧ result.acquired = true) ∧
        ∀ acquireQueued request s now, client.Idle request.grantId s now →
          client.StillQueued acquireQueued request s now →
          (client.acquires js acquireQueued request cost now s = true ↔ (request.settles = true → client.MarksLast))) ∧
      ∀ amount ceiling limitName,
        costProblem js client.name cost (budgetLimitsFor client.rateLimit resolveShared) =
            .ok (some (.exceedsBudget client.name amount ceiling limitName)) →
          ∃ limit ∈ client.rateLimit, limit.isMetered = true ∧ costFor js cost limit.name = .ok amount ∧
            limit.ceilingOf = ceiling ∧
            limitName = (if 1 < (client.rateLimit.filter NamedRateLimitData.isMetered).length then
              some limit.name else none) ∧
            (limit.outOfReach amount → ∀ acquireQueued request s now, client.Reachable request.grantId s now →
              client.acquires js acquireQueued request cost now s = false) := by
  rw [budgetLimitsFor_own own]
  have metered : ∀ limit ∈ client.rateLimit, limit.isMetered = true →
      limit ∈ client.rateLimit.filter NamedRateLimitData.isMetered :=
    fun limit member meters => List.mem_filter.mpr ⟨member, meters⟩
  constructor
  · intro asked
    have fits : client.Fits js cost := by
      intro limit member meters
      rcases costProblem_cases asked with ⟨_, _, _, wrong⟩ | ⟨-, breach, found, none_⟩
      · cases wrong
      · cases breach with
        | none => exact (breach_none found).2 limit (metered limit member meters)
        | some b => cases none_
    constructor
    · intro grantId slotId
      obtain ⟨specs, made⟩ : ∃ specs, client.getLimitSpecs js grantId slotId cost false = .ok specs :=
        limitSpecs_ok fits.named
      refine ⟨specs, made, ?_⟩
      intro s now idle
      have unsettling : client.Markable ⟨"", 0, grantId, false⟩ := client.markable_of_unsettling rfl
      exact fits.acquireMultiLimit accepted spendable idle unsettling made
    · intro acquireQueued request s now idle waiting
      rw [← markable_iff accepted]
      constructor
      · exact markable_of_acquires fits.named
      · intro markable
        exact fits.acquires accepted spendable idle markable waiting
  · intro amount ceiling limitName asked
    rcases costProblem_cases asked with ⟨_, _, _, wrong⟩ | ⟨missing, breach, found, reported⟩
    · cases wrong
    · cases breach with
      | none => cases reported
      | some b =>
        cases reported
        obtain ⟨member, charged, ceiling⟩ := (breach_some found).resolve_left nofun
        obtain ⟨declared, meters⟩ := List.mem_filter.mp member
        refine ⟨b.limit, declared, meters, charged, ceiling.symm, rfl, ?_⟩
        intro out acquireQueued request s now reachable
        obtain ⟨c, same, -⟩ := costFor_spendable spendable charged
        rw [same] at charged out
        refine acquires_beyond accepted ?_ declared charged out reachable
        intro limit held meters
        exact named_of_misnamed spendable missing limit.name (List.mem_map_of_mem (metered limit held meters))

end Claims

theorem acme_accepted : nameSegment "acme" = true := by decide

theorem main_accepted : nameSegment "main" = true := by decide

theorem global_accepted : ∀ id ∈ (none : Option String), nameSegment id = true ∧
    id ≠ globalOrganizationSegment := by simp

theorem childless_accepted : ∀ child ∈ ([] : List String), nameSegment child = true := by simp

/-- Ten requests a second, two of them at once. -/
def pacedClient : MeteredClient where
  name := "acme:global:main"
  keys := ⟨"dianemo", ⟨"acme", none, "main", [], acme_accepted, global_accepted, main_accepted, childless_accepted⟩,
    ⟨"acme", none, "main", [], acme_accepted, global_accepted, main_accepted, childless_accepted⟩, false⟩
  rateLimit := [⟨"per_second", .requestLimit 10 10 1000 none⟩, ⟨"at_once", .concurrencyLimit 2⟩]
  concurrencySlotTtl := none
  settleWindow := none

/-- Conversions no part of an accepted cost is read through. -/
def unreadConversions : Conversions :=
  ⟨fun _ => "", fun _ => nan, fun _ => nan, fun _ => nan, fun _ => "", fun _ => none⟩

def pacedRequest : ClaimingRequest := ⟨"r-1", 0, none, false⟩

/-- A cost of two is admitted by a store that holds nothing, a cost of three never. -/
theorem costProblem_decides_paced :
    pacedClient.acquires unreadConversions true pacedRequest (.num 2) 0 State.fresh = true ∧
      pacedClient.acquires unreadConversions true pacedRequest (.num 3) 0 State.fresh = false := by
  have accepted : rateLimitsProblem pacedClient.rateLimit = none := by decide +kernel
  have own : ∀ limit ∈ pacedClient.rateLimit, limit.data.isShared = false := by
    simp [pacedClient, RateLimitData.isShared]
  constructor
  · have idle : pacedClient.Idle none State.fresh 0 := by
      refine ⟨?_, ?_⟩
      · intro limit _ maxTokens tokensToAdd interval maxDebt _
        exact ite_self maxTokens
      · intro limit _ most _ z held
        cases held
    exact (((costProblem_decides unreadConversions pacedClient accepted own (by decide +kernel) fun _ => none).1 rfl).2 true
      pacedRequest State.fresh 0 idle (fun _ _ _ sole => by cases sole)).mpr fun settles =>
        absurd settles Bool.false_ne_true
  · obtain ⟨limit, declared, -, -, ceiling, -, never⟩ :=
      (costProblem_decides unreadConversions pacedClient accepted own
      (show unusableCostReason unreadConversions (.num 3) = none by decide +kernel) fun _ =>
        none).2 3 2 (some "at_once") rfl
    refine never ?_ true pacedRequest State.fresh 0 ?_
    · rcases List.mem_pair.mp declared with rfl | rfl
      · exact absurd ceiling (by decide +kernel)
      · exact show (2 : JsNumber) < 3 by decide +kernel
    · intro other _ most _
      exact ⟨0, State.fresh, [], rfl, rfl, trivial, le_rfl, rfl⟩

/-- One token a minute, up to more of them than a mark could wait for. -/
def hoardingClient : MeteredClient :=
  { pacedClient with rateLimit := [⟨"default", .requestLimit 9007199254740991 1 60000 none⟩] }

def settlingRequest : ClaimingRequest := ⟨"r-1", 0, none, true⟩

/-- The client's check lets the cost through, the bucket is full, and the claim of a request that
settles takes nothing: the write of its mark is refused. -/
theorem unkeepable_mark :
    rateLimitsProblem hoardingClient.rateLimit = none ∧
      (∀ limit ∈ hoardingClient.rateLimit, limit.data.isShared = false) ∧
      unusableCostReason unreadConversions (.num 1) = none ∧
      costProblem unreadConversions hoardingClient.name (.num 1)
        (budgetLimitsFor hoardingClient.rateLimit fun _ => none) = .ok none ∧
      hoardingClient.Idle settlingRequest.grantId State.fresh 0 ∧
      hoardingClient.acquires unreadConversions true settlingRequest (.num 1) 0 State.fresh = false := by
  refine ⟨by decide +kernel, by simp [hoardingClient, RateLimitData.isShared], by decide +kernel, rfl,
    ⟨?_, ?_⟩, by decide +kernel⟩
  · intro limit _ maxTokens tokensToAdd interval maxDebt _
    exact ite_self maxTokens
  · intro limit _ most _ z held
    cases held

end MeteredClient

end Dianemo
