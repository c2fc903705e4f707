import Dianemo.Ledger
import Dianemo.Runs

namespace Dianemo

open JsNumber Meter

namespace Level

/-- How long a balance stays short of its cost. -/
def wait (r : Rate) (cost now : ℚ) (l : Level) : ℚ :=
  Max.max 0 (⌈(cost - l.gauge.level) / r.tokensToAdd⌉ * r.interval - (now - l.gauge.clock))

/-- A balance below its cost, with less than an interval left unaccounted. -/
structure Short (r : Rate) (cost now : ℚ) (l : Level) : Prop where
  below : l.gauge.level < cost
  recent : now - r.interval < l.gauge.clock

section Waits

variable {r : Rate} {cost now t : ℚ} {l : Level}

theorem tokenWait_state (r : Rate) (cost now : ℚ) (l : Level) :
    tokenWait l.state (fin cost) r.config now = fin (l.wait r cost now) := by
  simp only [tokenWait, state, Rate.config, zero_eq, sub_fin, div_fin r.tokensToAdd_pos.ne',
    ceil_fin, mul_fin, max_fin, wait]

/-- The wait ends with the interval that feeds in what is missing. -/
theorem Short.wait_ends (short : l.Short r cost now) (period : 0 < r.interval) :
    ∃ n : ℕ, now + l.wait r cost now = l.gauge.clock + (n + 1 : ℕ) * r.interval ∧
      cost ≤ l.gauge.level + (n + 1 : ℕ) * r.tokensToAdd ∧ l.gauge.level + n * r.tokensToAdd < cost := by
  have missing : 0 < (cost - l.gauge.level) / r.tokensToAdd := div_pos (sub_pos.mpr short.below) r.tokensToAdd_pos
  obtain ⟨n, counted⟩ : ∃ n : ℕ, ⌈(cost - l.gauge.level) / r.tokensToAdd⌉ = (n + 1 : ℕ) := by
    obtain ⟨m, same⟩ := Int.eq_ofNat_of_zero_le (Int.ceil_pos.mpr missing).le
    cases m with
    | zero => exact absurd same (Int.ceil_pos.mpr missing).ne'
    | succ n => exact ⟨n, same⟩
  have cast : (⌈(cost - l.gauge.level) / r.tokensToAdd⌉ : ℚ) = (n + 1 : ℕ) := by
    rw [counted]
    exact Int.cast_natCast _
  have covers := Int.le_ceil ((cost - l.gauge.level) / r.tokensToAdd)
  have least := Int.ceil_lt_add_one ((cost - l.gauge.level) / r.tokensToAdd)
  rw [cast] at covers least
  rw [div_le_iff₀ r.tokensToAdd_pos] at covers
  push_cast at least
  have under : (n : ℚ) < (cost - l.gauge.level) / r.tokensToAdd := by linarith
  rw [lt_div_iff₀ r.tokensToAdd_pos] at under
  refine ⟨n, ?_, by linarith, by linarith⟩
  have recent := short.recent
  have served : 0 ≤ ((n + 1 : ℕ) : ℚ) * r.interval - (now - l.gauge.clock) := by
    have whole : 0 ≤ (n : ℚ) * r.interval := mul_nonneg (Nat.cast_nonneg n) period.le
    push_cast
    linarith
  rw [wait, cast, max_eq_right served]
  ring

theorem Short.covered_after (short : l.Short r cost now) (period : 0 < r.interval) (fits : cost ≤ r.maxTokens)
    (waited : now + l.wait r cost now ≤ t) : cost ≤ (l.refill r t).gauge.level := by
  obtain ⟨n, ends, enough, -⟩ := short.wait_ends period
  rw [ends] at waited
  exact Gauge.advance_reaches period r.tokensToAdd_pos.le n.succ_ne_zero waited fits enough

theorem Short.short_before (short : l.Short r cost now) (period : 0 < r.interval)
    (early : t < now + l.wait r cost now) : (l.refill r t).gauge.level < cost := by
  obtain ⟨n, ends, -, less⟩ := short.wait_ends period
  rw [ends] at early
  exact Gauge.advance_short period r.tokensToAdd_pos.le early less

theorem wait_nonneg (r : Rate) (cost now : ℚ) (l : Level) : 0 ≤ l.wait r cost now := le_max_left _ _

/-- Refilled, a balance has its remainder left and nothing above the ceiling. -/
theorem refill_recent (period : 0 < r.interval) (now : ℚ) (l : Level) :
    now - r.interval < (l.refill r now).gauge.clock :=
  Rule.lt_clock (r := r.rule) period l.gauge.clock now

theorem refill_le (r : Rate) (now : ℚ) (l : Level) : (l.refill r now).gauge.level ≤ r.maxTokens := min_le_left _ _

/-- A refilled balance only grows. -/
theorem le_refill_refill (r : Rate) (now t : ℚ) (l : Level) :
    (l.refill r now).gauge.level ≤ ((l.refill r now).refill r t).gauge.level := by
  have gain : 0 ≤ r.rule.gain := r.tokensToAdd_pos.le
  have kept : Min.min r.rule.cap (l.refill r now).gauge.level ≤ ((l.refill r now).gauge.advance r.rule t).level :=
    Gauge.min_le_advance_level gain
  exact (le_min (refill_le r now l) le_rfl).trans kept

end Waits

end Level

section Stores

variable {r : Rate} {s s' : State} {key : String} {now t ttl : ℚ} {l : Level}

/-- The hash under the key holds the counters. -/
def State.Counts (s : State) (key : String) (now : ℚ) (l : Level) : Prop :=
  ∀ f ∈ l.state.fields, s.hget key f.1 now = some f.2

theorem State.Counts.refill (counts : s.Counts key now l) :
    Dianemo.refill s key r.config now = (l.refill r now).state := by
  have stored : storedBucket s key r.config now = l.state := by
    have reads := counts
    simp only [State.Counts, BucketState.fields, List.forall_mem_cons, Level.state] at reads
    obtain ⟨tokens, lastUpdate, overflow, fills, -⟩ := reads
    simp only [storedBucket, tokens, lastUpdate, overflow, fills, parseFiniteStored_num, orElse_fin, Level.state]
  rw [Dianemo.refill, stored, Level.refill_state]

theorem State.Counts.congr (counts : s.Counts key now l)
    (same : s'.live key t = s.live key now) : s'.Counts key t l := by
  intro f member
  rw [← counts f member, State.hget, State.hget, State.hash, State.hash, same]

theorem counts_putFields (positive : 0 < ttl) (l : Level) :
    (s.putFields key now l.state.fields ttl).Counts key now l := by
  intro f member
  rw [hget_of_held (held_putFields positive _)]
  simp only [BucketState.fields, Level.state, List.mem_cons, List.not_mem_nil, or_false] at member
  rcases member with rfl | rfl | rfl | rfl <;>
    simp [BucketState.fields, Level.state, withFields, AList.lookup_insert_ne]

/-- Whatever a store holds, a usable bucket reads as exact counters. -/
theorem stored_exact (r : Rate) (s : State) (key : String) (now : ℚ) :
    ∃ l : Level, storedBucket s key r.config now = l.state := by
  have number : ∀ (raw : Option Field) (x : ℚ), ∃ q : ℚ, parseFiniteStored raw (fin x) = fin q := fun raw x =>
    isFinite_iff.mp (parseFiniteStored_finite raw rfl)
  obtain ⟨tokens, atTokens⟩ := number (s.hget key "tokens" now) r.maxTokens
  obtain ⟨clock, atClock⟩ := number (s.hget key "lastUpdate" now) now
  obtain ⟨spill, atSpill⟩ := number (s.hget key "overflow" now) 0
  obtain ⟨fills, atFills⟩ := number (s.hget key "fills" now) 0
  refine ⟨⟨⟨tokens, clock, spill⟩, fills⟩, ?_⟩
  have ceiling : r.config.maxTokens = fin r.maxTokens := rfl
  simp only [storedBucket, ceiling, zero_eq, atTokens, atClock, atSpill, atFills, Level.state]

theorem refill_exact (r : Rate) (s : State) (key : String) (now : ℚ) :
    ∃ l : Level, refill s key r.config now = (l.refill r now).state := by
  obtain ⟨l, stored⟩ := stored_exact r s key now
  exact ⟨l, by rw [refill, stored, Level.refill_state]⟩

/-- A bucket that reads as full is full once refilled. -/
theorem refill_full {r : Rate} {s : State} {key : String} {now : ℚ}
    (full : (storedBucket s key r.config now).tokens = r.config.maxTokens) :
    (refill s key r.config now).tokens = fin r.maxTokens := by
  obtain ⟨l, stored⟩ := stored_exact r s key now
  have level : l.gauge.level = r.maxTokens := by
    rw [stored] at full
    exact JsNumber.fin.inj full
  have fed : 0 ≤ r.rule.feed l.gauge.clock now := r.rule.feed_nonneg r.tokensToAdd_pos.le _ _
  rw [refill, stored, Level.refill_state]
  refine congrArg fin (min_eq_left ?_)
  rw [level]
  exact le_add_of_nonneg_right fed

end Stores

section Single

variable {r : Rate} {s s' : State} {key : String} {now t cost : ℚ} {l : Level}

/-- `acquireTokens` of a usable bucket in closed form, past a mark it can keep. -/
theorem acquireTokens_run (key : String) {mark : Option ClaimMark} {claim : Option (String × ℚ)}
    (made : claimMark mark = .ok claim) (nonneg : 0 ≤ cost) (now : ℚ) (s : State) :
    (acquireTokens key (fin cost) r.config mark now).run s =
      if coversCost (refill s key r.config now).tokens (fin cost) r.config.maxTokens then
        (.ok { acquired := true, remainingTokens := (refill s key r.config now).tokens - fin cost },
          s.spend key (refill s key r.config now) (fin cost) (bucketTtl (fin 86400) r.config).toRat claim now)
      else (.ok { acquired := false, waitTime := some (tokenWait (refill s key r.config now) (fin cost) r.config now),
                  remainingTokens := (refill s key r.config now).tokens },
          s.putFields key now (refill s key r.config now).fields (bucketTtl (fin 86400) r.config).toRat) := by
  obtain ⟨lives, sized⟩ := bucketTtl_sized WholeTtl.day (r.usable nonneg)
  have marked : ∀ c ∈ claim, WholeTtl c.2 := claimMark_all_whole made
  unfold acquireTokens
  rw [Op.run_bind_ok (by rw [made]; rfl), r.usable nonneg]
  simp only
  rw [Op.run_bind_ok (Op.run_read s)]
  by_cases covers : coversCost (refill s key r.config now).tokens (fin cost) r.config.maxTokens = true
  · simp only [if_pos covers, ofNat_eq]
    rw [Op.run_bind_ok (spendTokens_run lives sized marked _ _ _ _ _)]
    rfl
  · simp only [if_neg covers, ofNat_eq]
    rw [Op.run_bind_ok (writeBucket_run lives (some r.config) sized _ _ _ _)]
    rfl

theorem coversCost_of_le (r : Rate) (nonneg : 0 ≤ cost) {level : ℚ} (enough : cost ≤ level) :
    coversCost (fin level) (fin cost) r.config.maxTokens = true := by
  have ceiling : r.config.maxTokens = fin r.maxTokens := rfl
  have allowance : 0 ≤ Min.min r.maxTokens cost * balanceTolerance :=
    mul_nonneg (le_min r.maxTokens_pos.le nonneg) balanceTolerance_pos.le
  rw [coversCost, ceiling, min_fin, mul_fin, sub_fin, decide_eq_true_iff, fin_le_fin]
  linarith

theorem lt_of_not_coversCost (nonneg : 0 ≤ cost) {level : ℚ}
    (declines : coversCost (fin level) (fin cost) r.config.maxTokens = false) : level < cost := by
  by_contra enough
  rw [coversCost_of_le r nonneg (not_lt.mp enough)] at declines
  cases declines

/-- A bucket that declines is short. -/
theorem Level.short_of_declined (period : 0 < r.interval) (nonneg : 0 ≤ cost) {l : Level}
    (declines : coversCost (l.refill r now).state.tokens (fin cost) r.config.maxTokens = false) :
    (l.refill r now).Short r cost now :=
  ⟨lt_of_not_coversCost nonneg declines, refill_recent period now l⟩

theorem bucketTtl_pos (r : Rate) : 0 < (bucketTtl (fin 86400) r.config).toRat :=
  (bucketTtl_sized WholeTtl.day (r.usable le_rfl)).1.pos

end Single

section Reaping

/-- What reaping leaves of a ledger. -/
def Entry.reaped (e : Entry) (expireTime : JsNumber) : Option Entry :=
  match e.zset with
  | none => some e
  | some z =>
    let left := { e with zset := some (eraseAll z (staleSlots z expireTime)) }
    if left.size = some 0 then none else some left

/-- What it leaves of the costs beside it. -/
def Entry.reapedCosts (c : Entry) (stale : Option (List String)) : Option Entry :=
  match stale with
  | none => some c
  | some stale =>
    let left := { c with hash := c.hash.map fun h : Fields => eraseAll h stale }
    if left.size = some 0 then none else some left

/-- The slots of a ledger a reaping drops. -/
def Entry.staleSlots (e : Entry) (expireTime : JsNumber) : Option (List String) :=
  e.zset.map fun z => Dianemo.staleSlots z expireTime

variable {s s' : State} {key id : String} {expireTime : JsNumber} {now t : ℚ}

theorem live_reap (s : State) (key : String) (expireTime : JsNumber) (now : ℚ) :
    (reapConcurrency s key expireTime now).live key now = (s.live key now).bind (Entry.reaped · expireTime) ∧
      (reapConcurrency s key expireTime now).live (costsKey key) now =
        (s.live (costsKey key) now).bind
          (Entry.reapedCosts · ((s.live key now).bind (Entry.staleSlots · expireTime))) := by
  have ne := costsKey_ne key
  unfold reapConcurrency
  cases found : s.live key now with
  | none => simp [found, Entry.reapedCosts]
  | some e =>
    cases slots : e.zset with
    | none => simp [found, slots, Entry.reaped, Entry.reapedCosts, Entry.staleSlots]
    | some z =>
      have fresh : e.expired now = false := (State.live_eq_some.mp found).2
      generalize at_ : ({ e with zset := some (eraseAll z (Dianemo.staleSlots z expireTime)) } : Entry) = left
      have left_fresh : left.expired now = false := by rw [← at_]; exact fresh
      have put : (s.put key left).live key now = some left := State.live_put_self left_fresh
      have put_ne : (s.put key left).live (costsKey key) now = s.live (costsKey key) now :=
        State.live_congr (State.put_store_ne ne) now
      simp only [Option.bind_some, Entry.reaped, Entry.staleSlots, slots, at_, put_ne, Option.map_some]
      cases beside : s.live (costsKey key) now with
      | none =>
        have gone : ((s.put key left).dropIfEmpty key).live (costsKey key) now = none := by
          rw [live_dropIfEmpty_ne ne, put_ne, beside]
        exact ⟨by rw [live_dropIfEmpty_ne ne.symm, live_dropIfEmpty_self put], live_dropIfEmpty_none gone⟩
      | some c =>
        have fresh' : c.expired now = false := (State.live_eq_some.mp beside).2
        simp only [Option.bind_some, Entry.reapedCosts]
        generalize cost_ : ({ c with hash := c.hash.map fun h : Fields => eraseAll h (Dianemo.staleSlots z expireTime) } : Entry) = costs
        have costs_fresh : costs.expired now = false := by rw [← cost_]; exact fresh'
        have first : ((s.put key left).put (costsKey key) costs).live key now = some left := by
          rw [State.live_congr (State.put_store_ne ne.symm), put]
        have second : (((s.put key left).put (costsKey key) costs).dropIfEmpty key).live
            (costsKey key) now = some costs := by
          rw [live_dropIfEmpty_ne ne]
          exact State.live_put_self costs_fresh
        exact ⟨by rw [live_dropIfEmpty_ne ne.symm, live_dropIfEmpty_self first], live_dropIfEmpty_self second⟩

theorem concurrencyCost_congr (slots : s'.live key t = s.live key now)
    (costs : s'.live (costsKey key) t = s.live (costsKey key) now) (id : String) :
    concurrencyCost s' key id t = concurrencyCost s key id now := by
  simp only [concurrencyCost, State.zset, State.hash, slots, costs]

/-- Reaping what is the same leaves the same cost. -/
theorem reap_cost_congr (keeps : Keeps (ledgerKeys key) now s s') (expireTime : JsNumber) (id : String) :
    concurrencyCost (reapConcurrency s' key expireTime now) key id now =
      concurrencyCost (reapConcurrency s key expireTime now) key id now := by
  obtain ⟨slots, costs⟩ := live_reap s key expireTime now
  obtain ⟨slots', costs'⟩ := live_reap s' key expireTime now
  have same := keeps.live key (.inl rfl)
  have same' := keeps.live (costsKey key) (.inr rfl)
  exact concurrencyCost_congr (by rw [slots', slots, same]) (by rw [costs', costs, same, same']) id

theorem eraseAll_nil {β : String → Type} (m : AList β) : eraseAll m [] = m := rfl

/-- A ledger reaped once and not past any slot since is reaped to itself. -/
theorem Entry.reaped_reaped {e e' : Entry} {first second : JsNumber} (reaped : e.reaped first = some e')
    (current : ∀ z, e'.zset = some z → Dianemo.staleSlots z second = []) : e'.reaped second = some e' := by
  unfold Entry.reaped at reaped ⊢
  cases slots : e.zset with
  | none =>
    simp only [slots, Option.some.injEq] at reaped
    subst reaped
    rw [slots]
  | some z =>
    simp only [slots] at reaped
    split at reaped
    · cases reaped
    · rename_i full
      cases reaped
      have none_ := current _ rfl
      simp only [none_, eraseAll_nil]
      exact if_neg full

theorem Entry.reapedCosts_reapedCosts {c c' : Entry} {stale : Option (List String)}
    (reaped : c.reapedCosts stale = some c')
    (some_ : stale.isSome = true) : c'.reapedCosts (some []) = some c' := by
  obtain ⟨gone, rfl⟩ := Option.isSome_iff_exists.mp some_
  simp only [Entry.reapedCosts] at reaped
  split at reaped
  · cases reaped
  · rename_i full
    cases reaped
    have same : (c.hash.map fun h : Fields => eraseAll h gone).map (fun h : Fields => eraseAll h []) =
        c.hash.map fun h : Fields => eraseAll h gone := by cases c.hash <;> rfl
    simp only [Entry.reapedCosts, same]
    exact if_neg full

/-- Reaped again past no slot, a ledger costs what it did. -/
theorem reap_cost_again {u : State} {second : JsNumber}
    (slots : u.live key t = (reapConcurrency s key expireTime now).live key now)
    (costs : u.live (costsKey key) t = (reapConcurrency s key expireTime now).live (costsKey key) now)
    (current : ∀ z, u.zset key t = some z → staleSlots z second = []) (id : String) :
    concurrencyCost (reapConcurrency u key second t) key id t =
      concurrencyCost (reapConcurrency s key expireTime now) key id now := by
  obtain ⟨first, firstCosts⟩ := live_reap s key expireTime now
  obtain ⟨again, againCosts⟩ := live_reap u key second t
  rw [← slots] at first
  rw [← costs] at firstCosts
  refine concurrencyCost_congr ?_ ?_ id
  · rw [again, ← slots]
    cases found : u.live key t with
    | none => rfl
    | some e' =>
      rw [found] at first
      obtain ⟨e, -, reaped⟩ := Option.bind_eq_some_iff.mp first.symm
      refine Entry.reaped_reaped reaped fun z held => current z ?_
      rw [State.zset, found, Option.bind_some, held]
  · rw [againCosts, ← costs]
    cases beside : u.live (costsKey key) t with
    | none => rfl
    | some c' =>
      rw [beside] at firstCosts
      obtain ⟨c, -, reaped⟩ := Option.bind_eq_some_iff.mp firstCosts.symm
      rw [Option.bind_some]
      cases found : u.live key t with
      | none => rfl
      | some e' =>
        rw [Option.bind_some]
        cases held : e'.zset with
        | none => simp [Entry.staleSlots, held, Entry.reapedCosts]
        | some z =>
          have none_ : staleSlots z second = [] := current z (by rw [State.zset, found, Option.bind_some, held])
          rw [found] at first
          obtain ⟨e, had, left⟩ := Option.bind_eq_some_iff.mp first.symm
          simp only [Entry.staleSlots, held, Option.map_some, none_]
          refine Entry.reapedCosts_reapedCosts reaped ?_
          rw [had, Option.bind_some, Entry.staleSlots, Option.isSome_map]
          unfold Entry.reaped at left
          cases slots' : e.zset with
          | none =>
            simp only [slots', Option.some.injEq] at left
            rw [← left, slots'] at held
            cases held
          | some z' => rfl

end Reaping

section Longest

/-- The bucket's refilled balance does not cover its cost. -/
def TokenBucketSpec.Declines (spec : TokenBucketSpec) (now : ℚ) (s : State) : Prop :=
  coversCost (refill s spec.key spec.config now).tokens spec.cost spec.config.maxTokens = false

instance decidableDeclines (spec : TokenBucketSpec) (now : ℚ) (s : State) : Decidable (spec.Declines now s) :=
  inferInstanceAs (Decidable (_ = _))

/-- The wait the bucket asks for by itself. -/
def TokenBucketSpec.wait (spec : TokenBucketSpec) (now : ℚ) (s : State) : JsNumber :=
  tokenWait (refill s spec.key spec.config now) spec.cost spec.config now

/-- What a bucket of a claim asks for, if it declines. -/
def ClaimSpec.shortfall (now : ℚ) (s : State) : ClaimSpec → List (String × ℚ)
  | .tokenBucket spec _ => if spec.Declines now s then [(spec.key, (spec.wait now s).toRat)] else []
  | .concurrency _ => []

/-- The plan reports the longest of the waits asked for, and who asks for it. -/
def Plan.Longest (plan : Plan) (asked : List (String × ℚ)) : Prop :=
  (asked = [] ∧ plan.waitTime = none) ∨ ∃ longest ∈ asked, plan.waitTime = some (fin longest.2) ∧
    plan.blockedBy = some longest.1 ∧ ∀ other ∈ asked, other.2 ≤ longest.2

/-- The budget is usable in exact numbers, and a bucket can hold what it is asked for. -/
def MultiLimitSpec.Exact : MultiLimitSpec → Prop
  | .tokenBucket spec => ∃ (r : Rate) (cost : ℚ), spec.config = r.config ∧ spec.cost = fin cost ∧
      0 < r.interval ∧ 0 ≤ cost ∧
      cost ≤ r.maxTokens
  | .concurrency spec => unusableSlot spec.cost spec.config = none

variable {s u : State} {now : ℚ} {plan : Plan} {asked : List (String × ℚ)} {claims : List ClaimSpec} {c : ClaimSpec}

theorem MultiLimitSpec.Exact.usable (exact_ : c.spec.Exact) : c.unusable = none := by
  cases c with
  | tokenBucket spec mark =>
    obtain ⟨r, cost, config, amount, -, nonneg, -⟩ := exact_
    rw [ClaimSpec.unusable, config, amount]
    exact r.usable nonneg
  | concurrency spec => exact exact_

theorem Plan.Longest.declineBucket (longest : plan.Longest asked) (key : String) (wait : ℚ) :
    (plan.declineBucket key (fin wait)).Longest (asked ++ [(key, wait)]) := by
  unfold Plan.declineBucket
  rcases longest with ⟨rfl, none_⟩ | ⟨most, member, waits, blocked, bound⟩
  · rw [none_, Option.elim_none, if_pos rfl]
    exact .inr ⟨(key, wait), by simp, rfl, rfl, by simp⟩
  · rw [waits, Option.elim_some]
    by_cases longer : most.2 < wait
    · rw [if_pos (by simpa using longer)]
      refine .inr ⟨(key, wait), by simp, rfl, rfl, fun other inside => ?_⟩
      rcases List.mem_append.mp inside with before | last
      · exact (bound other before).trans longer.le
      · rw [List.mem_singleton.mp last]
    · rw [if_neg (by simpa using longer)]
      refine .inr ⟨most, List.mem_append_left _ member, rfl, blocked, fun other inside => ?_⟩
      rcases List.mem_append.mp inside with before | last
      · exact bound other before
      · rw [List.mem_singleton.mp last]
        exact not_lt.mp longer

/-- One turn of the check phase keeps the longest wait. -/
theorem Plan.Longest.turn (longest : plan.Longest asked) (exact_ : c.spec.Exact)
    (agree : ∀ spec mark, c = .tokenBucket spec mark → u.live spec.key now = s.live spec.key now)
    (slot : ∀ spec, c = .concurrency spec → c.fits now u = true) :
    (c.plan now u plan).Longest (asked ++ c.shortfall now s) := by
  cases c with
  | tokenBucket spec mark =>
    obtain ⟨r, cost, config, amount, -⟩ := exact_
    have same : refill u spec.key spec.config now = refill s spec.key spec.config now := by
      have here := agree spec mark rfl
      simp only [refill, storedBucket, State.hget_congr here]
    have wait : tokenWait (refill s spec.key spec.config now) spec.cost spec.config now =
        fin (tokenWait (refill s spec.key spec.config now) spec.cost spec.config now).toRat := by
      obtain ⟨l, reads⟩ := refill_exact r s spec.key now
      rw [config, amount, reads, Level.tokenWait_state]
      rfl
    simp only [ClaimSpec.plan, planBucket, same, ClaimSpec.shortfall]
    by_cases covers : coversCost (refill s spec.key spec.config now).tokens spec.cost spec.config.maxTokens = true
    · have enough : ¬ spec.Declines now s := by simp [TokenBucketSpec.Declines, covers]
      rw [if_pos covers, if_neg enough, List.append_nil]
      exact longest
    · have declines : spec.Declines now s := by simpa [TokenBucketSpec.Declines] using covers
      rw [if_neg covers, if_pos declines, TokenBucketSpec.wait, wait]
      refine Plan.Longest.declineBucket ?_ spec.key _
      exact longest
  | concurrency spec =>
    have fits := slot spec rfl
    simp only [ClaimSpec.fits, decide_eq_true_eq] at fits
    simp only [ClaimSpec.plan, planSlot, if_neg fits, ClaimSpec.shortfall, List.append_nil]
    exact longest

theorem planMultiLimit_longest (longest : plan.Longest asked) (exact_ : ∀ c ∈ claims, c.spec.Exact)
    (apart : (claims.flatMap fun c => c.spec.home).Nodup)
    (agree : ∀ c ∈ claims, ∀ k ∈ c.spec.home, u.live k now = s.live k now)
    (slots : ∀ early spec late, claims = early ++ .concurrency spec :: late →
      (ClaimSpec.concurrency spec).fits now ((ClaimSpec.concurrency spec).check now (checked now early u)) = true) :
    (planMultiLimit now claims plan u).1.Longest (asked ++ claims.flatMap (ClaimSpec.shortfall now s)) := by
  induction claims generalizing plan asked u with
  | nil =>
    rw [List.flatMap_nil, List.append_nil]
    exact longest
  | cons c rest ih =>
    rw [List.flatMap_cons, List.nodup_append] at apart
    obtain ⟨-, apart, away⟩ := apart
    rw [List.forall_mem_cons] at exact_ agree
    rw [planMultiLimit_cons, exact_.1.usable, List.flatMap_cons, ← List.append_assoc]
    -- a ledger reaped is no key of the budgets still to come
    have kept : ∀ other ∈ rest, ∀ k ∈ other.spec.home, (c.check now u).live k now = u.live k now := by
      intro other member k home
      have keeps : Keeps {k} now u (checked now [c] u) := by
        refine checked_keeps (fun c' only k' home' same => ?_) u
        rw [List.mem_singleton.mp only] at home'
        exact away k' home' k (List.mem_flatMap.mpr ⟨other, member, home⟩) same
      exact keeps.live k rfl
    refine ih ?_ exact_.2 apart (fun other member k home =>
      (kept other member k home).trans (agree.2 other member k home))
      fun early spec late split => ?_
    · refine longest.turn exact_.1 ?_ ?_
      · rintro spec mark rfl
        exact agree.1 spec.key (by simp [ClaimSpec.spec, MultiLimitSpec.home])
      · rintro spec rfl
        exact slots [] spec rest rfl
    · exact slots (c :: early) spec late (by rw [split]; rfl)

/-- The check phase of budgets that are all usable. -/
theorem planMultiLimit_usable (usable : ∀ c ∈ claims, c.unusable = none) (now : ℚ) (s : State) :
    (planMultiLimit now claims {} s).1.error = none ∧ (planMultiLimit now claims {} s).2 = checked now claims s ∧
      (planMultiLimit now claims {} s).1.acquired = allFit now claims s ∧
      (planMultiLimit now claims {} s).1.buckets = plannedBuckets now claims s ∧
      (allFit now claims s = true → (planMultiLimit now claims {} s).1.slots = claims.flatMap ClaimSpec.slots) := by
  rcases planMultiLimit_cases now claims {} rfl s with stopped | drawn
  · obtain ⟨early, c, late, rfl, -, stops, -⟩ := stopped
    rw [usable c (by simp)] at stops
    cases stops
  · obtain ⟨-, error, reached, acquired, buckets, slots⟩ := drawn
    exact ⟨error, reached, by rw [acquired, Bool.true_and], by rw [buckets, List.nil_append],
      fun fit => by rw [slots fit, List.nil_append]⟩

/-- `acquireMultiLimit` of usable budgets: admitted if every one fits, and otherwise reported with the plan's wait. -/
theorem acquireMultiLimit_usable {specs : List MultiLimitSpec} (marks : claimMarks specs = .ok claims)
    (usable : ∀ c ∈ claims, c.unusable = none) (now : ℚ) (s : State) :
    (allFit now claims s = true ∧ ∃ s', (acquireMultiLimit specs now).run s = (.ok { acquired := true }, s')) ∨
      (allFit now claims s = false ∧ (acquireMultiLimit specs now).run s =
        (.ok { acquired := false, waitTime := some ((planMultiLimit now claims {} s).1.waitTime.getD 0),
               blockedBy := (planMultiLimit now claims {} s).1.blockedBy },
          (plannedBuckets now claims s).foldl (PlannedBucket.write 86400 now) (checked now claims s))) := by
  obtain ⟨error, reached, acquired, buckets, slots⟩ := planMultiLimit_usable usable now s
  have clean : ¬ (planMultiLimit now claims {} s).1.error.isSome = true := by
    rw [error]
    exact Bool.false_ne_true
  have opens : ∀ {α : Type} (f : List ClaimSpec → Op α),
      (Op.lift (claimMarks specs) >>= f).run s = (f claims).run s := by
    intro α f
    rw [Op.run_bind_ok (by rw [marks]; rfl)]
  cases fit : allFit now claims s with
  | true =>
    obtain ⟨s', run, -⟩ := commitPlan_attempt WholeTtl.day (claimMarks_normal marks).2 now s
    refine .inl ⟨rfl, s', ?_⟩
    rw [acquireMultiLimit, opens, Op.run_bind_ok (by rfl), ofNat_eq, Op.run_bind_ok run,
      Plan.report, error, acquired, fit]
    rfl
  | false =>
    refine .inr ⟨rfl, ?_⟩
    have declined : ¬ (planMultiLimit now claims {} s).1.acquired = true := by
      rw [acquired, fit]
      exact Bool.false_ne_true
    have written : (commitPlan (planMultiLimit now claims {} s).1 (fin 86400) now).run
        (planMultiLimit now claims {} s).2 =
        (.ok (), (plannedBuckets now claims s).foldl (PlannedBucket.write 86400 now) (checked now claims s)) := by
      rw [commitPlan, if_neg clean, if_pos declined, buckets, reached]
      refine Op.forEach_run _ (fun bucket member u => ?_) _
      obtain ⟨lives, sized⟩ := bucketTtl_sized WholeTtl.day (plannedBuckets_usable usable member)
      exact writeBucket_run lives (some bucket.config) sized _ _ _ _
    rw [acquireMultiLimit, opens, Op.run_bind_ok (by rfl), ofNat_eq, Op.run_bind_ok written,
      Plan.report, error, acquired, fit]
    rfl

theorem allFit_of_turns (turns : ∀ early c late, claims = early ++ c :: late →
    c.fits now (c.check now (checked now early s)) = true) : allFit now claims s = true := by
  induction claims generalizing s with
  | nil => rfl
  | cons c rest ih =>
    have head : c.fits now (c.check now s) = true := turns [] c rest rfl
    have tail : allFit now rest (c.check now s) = true :=
      ih fun early other late split => turns (c :: early) other late (by rw [split]; rfl)
    rw [allFit, head, tail, Bool.and_self]

theorem mem_shortfalls {e : String × ℚ} : e ∈ claims.flatMap (ClaimSpec.shortfall now s) ↔
    ∃ spec mark, .tokenBucket spec mark ∈ claims ∧ spec.Declines now s ∧
      e = (spec.key, (spec.wait now s).toRat) := by
  rw [List.mem_flatMap]
  constructor
  · rintro ⟨c, member, inside⟩
    cases c with
    | tokenBucket spec mark =>
      simp only [ClaimSpec.shortfall] at inside
      split at inside
      · rename_i declines
        exact ⟨spec, mark, member, declines, List.mem_singleton.mp inside⟩
      · cases inside
    | concurrency spec => cases inside
  · rintro ⟨spec, mark, member, declines, rfl⟩
    exact ⟨_, member, by simp [ClaimSpec.shortfall, declines]⟩

/-- The other budgets of a list keep off one's keys. -/
theorem homes_apart {early late : List ClaimSpec}
    (apart : ((early ++ c :: late).flatMap fun c => c.spec.home).Nodup) :
    ∀ other ∈ early ++ late, ∀ k ∈ other.spec.home, k ∉ {k | k ∈ c.spec.home} := by
  rw [List.flatMap_append, List.flatMap_cons, List.nodup_append, List.nodup_append] at apart
  obtain ⟨-, ⟨-, -, after⟩, before⟩ := apart
  intro other member k home own
  rcases List.mem_append.mp member with sooner | later
  · exact before k (List.mem_flatMap.mpr ⟨other, sooner, home⟩) k (List.mem_append_left _ own) rfl
  · exact after k own k (List.mem_flatMap.mpr ⟨other, later, home⟩) rfl

end Longest

section Retry

/-- Nothing of the budget expires between the two instants: neither its keys nor a slot of its ledger. -/
def MultiLimitSpec.Persists (now later : ℚ) (s : State) (spec : MultiLimitSpec) : Prop :=
  (∀ k ∈ spec.home, s.live k later = s.live k now) ∧
    ∀ slot, spec = .concurrency slot → ∀ z, s.zset slot.key now = some z →
      staleSlots z (fin later - slot.config.requestTtl) = []

/-- The ledger has room for the slot, past the slots it would reap. -/
def ConcurrencySpec.Admits (spec : ConcurrencySpec) (now : ℚ) (s : State) : Prop :=
  (ClaimSpec.concurrency spec).fits now ((ClaimSpec.concurrency spec).check now s) = true

variable {s s' u : State} {now t : ℚ} {claims early late : List ClaimSpec} {c : ClaimSpec}

theorem live_between {key : String} {later : ℚ} (same : s.live key later = s.live key now)
    (since : now ≤ t) (before : t ≤ later) : s.live key t = s.live key now := by
  cases found : s.live key now with
  | none => exact live_none_later since found
  | some e =>
    rw [found, State.live_later before, Option.filter_eq_some_iff] at same
    exact same.1

theorem ConcurrencySpec.Admits.turn {spec : ConcurrencySpec} (admits : spec.Admits now s)
    (keeps : Keeps (ledgerKeys spec.key) now s u) :
    (ClaimSpec.concurrency spec).fits now ((ClaimSpec.concurrency spec).check now u) = true := by
  simp only [Admits, ClaimSpec.fits, ClaimSpec.check, reap_cost_congr keeps] at admits ⊢
  exact admits

theorem ledger_homes (spec : ConcurrencySpec) :
    {k | k ∈ (ClaimSpec.concurrency spec).spec.home} = ledgerKeys spec.key := by
  ext k
  simp [ClaimSpec.spec, MultiLimitSpec.home, ledgerKeys]

/-- What a refused claim leaves of one of its buckets: its counters, refilled. -/
theorem refused_bucket {spec : TokenBucketSpec} {mark : Option (String × ℚ)} {r : Rate} {l : Level}
    (split : claims = early ++ .tokenBucket spec mark :: late) (apart : (claims.flatMap fun c => c.spec.home).Nodup)
    (config : spec.config = r.config) (reads : refill s spec.key r.config now = l.state) :
    ((plannedBuckets now claims s).foldl (PlannedBucket.write 86400 now) (checked now claims s)).Counts spec.key now l := by
  subst split
  have homes := homes_apart apart
  have watched : (ClaimSpec.tokenBucket spec mark).spec.key ∈
      {k | k ∈ (ClaimSpec.tokenBucket spec mark).spec.home} := by
    simp [ClaimSpec.spec, MultiLimitSpec.home, MultiLimitSpec.key]
  obtain ⟨s₂, before, after⟩ := refused_own 86400 now s watched homes
  have first : Keeps _ now s (checked now early s) := checked_keeps (List.forall_mem_append.mp homes).1 s
  have same : refill s₂ spec.key r.config now = l.state :=
    ((before.refill watched r.config).trans (first.refill watched r.config)).trans reads
  refine State.Counts.congr ?_ (after.live _ watched)
  simp only [ClaimSpec.refuse, config, same]
  exact counts_putFields (bucketTtl_pos r) l

/-- A slot its ledger has room for fits at its turn too. -/
theorem slots_turn (apart : (claims.flatMap fun c => c.spec.home).Nodup)
    (slots : ∀ spec, .concurrency spec ∈ claims → spec.Admits now s)
    (early : List ClaimSpec) (spec : ConcurrencySpec)
    (late : List ClaimSpec) (split : claims = early ++ .concurrency spec :: late) :
    (ClaimSpec.concurrency spec).fits now ((ClaimSpec.concurrency spec).check now (checked now early s)) = true := by
  have keeps : Keeps (ledgerKeys spec.key) now s (checked now early s) := by
    rw [← ledger_homes]
    exact checked_keeps (List.forall_mem_append.mp (homes_apart (split ▸ apart))).1 s
  exact (slots spec (by simp [split])).turn keeps

theorem allFit_of_admits (apart : (claims.flatMap fun c => c.spec.home).Nodup)
    (slots : ∀ spec, .concurrency spec ∈ claims → spec.Admits now s)
    (buckets : ∀ spec mark, .tokenBucket spec mark ∈ claims → ¬ spec.Declines now s) :
    allFit now claims s = true := by
  refine allFit_of_turns fun early c late split => ?_
  cases c with
  | tokenBucket spec mark =>
    have watched : spec.key ∈ {k | k ∈ (ClaimSpec.tokenBucket spec mark).spec.home} := by
      simp [ClaimSpec.spec, MultiLimitSpec.home]
    have keeps : Keeps _ now s (checked now early s) :=
      checked_keeps (List.forall_mem_append.mp (homes_apart (split ▸ apart))).1 s
    have covered := buckets spec mark (by simp [split])
    rw [TokenBucketSpec.Declines, Bool.not_eq_false, ← keeps.refill watched] at covered
    exact covered
  | concurrency spec => exact slots_turn apart slots early spec late split

/-- Waited out, every budget of a refused claim admits. -/
theorem allFit_later {later : ℚ} (exact_ : ∀ c ∈ claims, c.spec.Exact)
    (apart : (claims.flatMap fun c => c.spec.home).Nodup)
    (slots : ∀ spec, .concurrency spec ∈ claims → spec.Admits now s)
    (waits : ∀ spec mark, .tokenBucket spec mark ∈ claims → spec.Declines now s →
      ∃ w, spec.wait now s = fin w ∧ now + w ≤ later)
    (persists : ∀ c ∈ claims, c.spec.Persists now later
      ((plannedBuckets now claims s).foldl (PlannedBucket.write 86400 now) (checked now claims s))) :
    allFit later claims ((plannedBuckets now claims s).foldl (PlannedBucket.write 86400 now) (checked now claims s)) = true := by
  generalize at_ : (plannedBuckets now claims s).foldl (PlannedBucket.write 86400 now)
    (checked now claims s) = s' at persists ⊢
  refine allFit_of_turns fun early c late split => ?_
  have member : c ∈ claims := by simp [split]
  have homes := homes_apart (split ▸ apart)
  have turn : Keeps {k | k ∈ c.spec.home} later s' (checked later early s') :=
    checked_keeps (List.forall_mem_append.mp homes).1 s'
  obtain ⟨lives, current⟩ := persists c member
  cases c with
  | tokenBucket spec mark =>
    obtain ⟨r, cost, config, amount, period, nonneg, fits⟩ := exact_ _ member
    obtain ⟨l, reads⟩ := refill_exact r s spec.key now
    have counts := refused_bucket split apart config reads
    rw [at_] at counts
    have watched : spec.key ∈ {k | k ∈ (ClaimSpec.tokenBucket spec mark).spec.home} := by
      simp [ClaimSpec.spec, MultiLimitSpec.home]
    have reached : refill s' spec.key r.config later = ((l.refill r now).refill r later).state :=
      (counts.congr (lives spec.key watched)).refill
    simp only [ClaimSpec.fits, ClaimSpec.check]
    rw [turn.refill watched, config, amount, reached]
    by_cases declines : spec.Declines now s
    · obtain ⟨w, asks, waited⟩ := waits spec mark member declines
      rw [TokenBucketSpec.Declines, config, amount, reads] at declines
      rw [TokenBucketSpec.wait, config, amount, reads, Level.tokenWait_state, fin.injEq] at asks
      have short := Level.short_of_declined period nonneg declines
      exact coversCost_of_le r nonneg (short.covered_after period fits (asks ▸ waited))
    · have covered : coversCost (l.refill r now).state.tokens (fin cost) r.config.maxTokens = true := by
        simpa [TokenBucketSpec.Declines, config, amount, reads] using declines
      have more := Level.le_refill_refill r now later l
      have ceiling : r.config.maxTokens = fin r.maxTokens := rfl
      have tokens : ∀ l : Level, l.state.tokens = fin l.gauge.level := fun _ => rfl
      rw [coversCost, ceiling, tokens, min_fin, mul_fin, sub_fin, decide_eq_true_iff, fin_le_fin] at covered ⊢
      exact covered.trans more
  | concurrency spec =>
    have admits := slots spec member
    rw [ledger_homes] at homes turn
    subst split
    have watched : (ClaimSpec.concurrency spec).spec.key ∈ ledgerKeys spec.key := .inl rfl
    obtain ⟨s₂, before, after⟩ := refused_own 86400 now s watched homes
    have first : Keeps (ledgerKeys spec.key) now s (checked now early s) :=
      checked_keeps (List.forall_mem_append.mp homes).1 s
    rw [at_] at after
    have left : ∀ k ∈ ledgerKeys spec.key, (checked later early s').live k later =
        (reapConcurrency (checked now early s) spec.key (fin now - spec.config.requestTtl) now).live k now := by
      intro k own
      have home : k ∈ (ClaimSpec.concurrency spec).spec.home := by
        rwa [← ledger_homes] at own
      rw [turn.live k own, lives k home]
      exact (after.live k own).trans (before.live k own)
    have unlapsed : ∀ z, (checked later early s').zset spec.key later = some z →
        staleSlots z (fin later - spec.config.requestTtl) = [] := by
      intro z found
      refine current spec rfl z ?_
      have here := turn.live spec.key (.inl rfl)
      rw [State.zset, here, lives _ (by simp [ClaimSpec.spec, MultiLimitSpec.home])] at found
      exact found
    have same := reap_cost_again (left _ (.inl rfl)) (left _ (.inr rfl)) unlapsed spec.slotId
    have fits := admits.turn first
    simp only [ClaimSpec.fits, decide_eq_true_eq] at fits ⊢
    exact same ▸ fits

/-- A single bucket's wait. -/
theorem acquireTokens_wait {r : Rate} {cost : ℚ} {key : String} {mark : Option ClaimMark}
    {result : AcquireTokensResult}
    (period : 0 < r.interval) (nonneg : 0 ≤ cost) (fits : cost ≤ r.maxTokens)
    (run : (acquireTokens key (fin cost) r.config mark now).run s = (.ok result, s'))
    (declined : result.acquired = false) :
    ∃ w : ℚ, 0 ≤ w ∧ result.waitTime = some (fin w) ∧ (s'.live key (now + w) = s'.live key now →
      (∃ result' s'', (acquireTokens key (fin cost) r.config mark (now + w)).run s' = (.ok result', s'') ∧
        result'.acquired = true) ∧
      ∀ t, now ≤ t → t < now + w → (refill s' key r.config t).tokens < fin cost) := by
  obtain ⟨claim, made⟩ : ∃ claim, claimMark mark = .ok claim := by
    cases made : claimMark mark with
    | ok claim => exact ⟨claim, rfl⟩
    | error e =>
      rw [acquireTokens, Op.run_bind_error (by rw [made]; rfl)] at run
      cases run
  obtain ⟨l, reads⟩ := refill_exact r s key now
  rw [acquireTokens_run key made nonneg, reads] at run
  by_cases covers : coversCost (l.refill r now).state.tokens (fin cost) r.config.maxTokens = true
  · rw [if_pos covers] at run
    cases run
    cases declined
  rw [if_neg covers, Level.tokenWait_state] at run
  cases run
  have short := Level.short_of_declined period nonneg (Bool.eq_false_iff.mpr covers)
  refine ⟨_, Level.wait_nonneg _ _ _ _, rfl, fun lasts => ⟨?_, fun t since early => ?_⟩⟩
  · have enough := coversCost_of_le r nonneg (short.covered_after period fits le_rfl)
    rw [acquireTokens_run key made nonneg, ((counts_putFields (bucketTtl_pos r) (l.refill r now)).congr lasts).refill]
    exact ⟨_, _, if_pos enough, rfl⟩
  · have here := live_between lasts since early.le
    rw [((counts_putFields (bucketTtl_pos r) (l.refill r now)).congr here).refill, Level.state, fin_lt_fin]
    exact short.short_before period early

theorem claims_of_specs {specs : List MultiLimitSpec} (made : claims.map ClaimSpec.spec = specs) :
    (∀ {P : MultiLimitSpec → Prop}, (∀ spec ∈ specs, P spec) → ∀ c ∈ claims, P c.spec) ∧
      (∀ spec mark, .tokenBucket spec mark ∈ claims → .tokenBucket spec ∈ specs) ∧
      (∀ spec, .tokenBucket spec ∈ specs → ∃ mark, .tokenBucket spec mark ∈ claims) ∧
      (∀ spec, .concurrency spec ∈ claims → .concurrency spec ∈ specs) ∧
      (claims.flatMap fun c => c.spec.home) = specs.flatMap MultiLimitSpec.home := by
  subst made
  refine ⟨fun holds c member => holds _ (List.mem_map_of_mem member),
    fun spec mark member => List.mem_map.mpr ⟨_, member, rfl⟩,
    fun spec member => ?_, fun spec member => List.mem_map.mpr ⟨_, member, rfl⟩, by rw [List.flatMap_map]⟩
  obtain ⟨c, inside, same⟩ := List.mem_map.mp member
  cases c with
  | tokenBucket spec' mark =>
    cases same
    exact ⟨mark, inside⟩
  | concurrency spec' => cases same

/-- A list's wait: the longest its buckets ask for. -/
theorem acquireMultiLimit_wait {specs : List MultiLimitSpec} {result : AcquireMultiLimitResult}
    (exact_ : ∀ spec ∈ specs, spec.Exact)
    (apart : (specs.flatMap MultiLimitSpec.home).Nodup)
    (slots : ∀ spec, .concurrency spec ∈ specs → spec.Admits now s)
    (run : (acquireMultiLimit specs now).run s = (.ok result, s')) (declined : result.acquired = false) :
    ∃ (w : ℚ) (slowest : TokenBucketSpec), 0 ≤ w ∧ .tokenBucket slowest ∈ specs ∧ slowest.Declines now s ∧
      slowest.wait now s = fin w ∧ result.waitTime = some (fin w) ∧ result.blockedBy = some slowest.key ∧
      (∀ spec, .tokenBucket spec ∈ specs → spec.Declines now s → ∃ w', spec.wait now s = fin w' ∧ w' ≤ w) ∧
      ((∀ spec ∈ specs, spec.Persists now (now + w) s') →
        (∃ result' s'', (acquireMultiLimit specs (now + w)).run s' = (.ok result', s'') ∧ result'.acquired = true) ∧
        ∀ t, now ≤ t → t < now + w → ∃ spec, .tokenBucket spec ∈ specs ∧
          (refill s' spec.key spec.config t).tokens < spec.cost) := by
  obtain ⟨claims, marks⟩ : ∃ claims, claimMarks specs = .ok claims := by
    cases marks : claimMarks specs with
    | ok claims => exact ⟨claims, rfl⟩
    | error e =>
      rw [acquireMultiLimit, Op.run_bind_error (by rw [marks]; rfl)] at run
      cases run
  obtain ⟨each, toSpec, toClaim, toSlot, homes⟩ := claims_of_specs (claimMarks_normal marks).1
  have exact' := each exact_
  have usable : ∀ c ∈ claims, c.unusable = none := fun c member => (exact' c member).usable
  have admits : ∀ spec, .concurrency spec ∈ claims → spec.Admits now s :=
    fun spec member => slots spec (toSlot spec member)
  rw [← homes] at apart
  -- a bucket's own wait is a number
  have waits : ∀ spec, .tokenBucket spec ∈ specs → spec.wait now s = fin (spec.wait now s).toRat ∧
      0 ≤ (spec.wait now s).toRat := by
    intro spec member
    obtain ⟨r, cost, config, amount, -⟩ := exact_ _ member
    obtain ⟨l, reads⟩ := refill_exact r s spec.key now
    rw [TokenBucketSpec.wait, config, amount, reads, Level.tokenWait_state]
    exact ⟨rfl, Level.wait_nonneg _ _ _ _⟩
  have start : Plan.Longest {} [] := .inl ⟨rfl, rfl⟩
  have longest := planMultiLimit_longest start exact' apart (fun c member k home => rfl) (slots_turn apart admits)
  rw [List.nil_append] at longest
  rcases acquireMultiLimit_usable marks usable now s with ⟨-, after, admitted⟩ | ⟨unfit, refused⟩
  · rw [run] at admitted
    cases admitted
    cases declined
  rw [run] at refused
  cases refused
  rcases longest with ⟨nothing, -⟩ | ⟨most, asked, waited, blocked, bound⟩
  · -- with nothing asked for, every budget fits
    have fit : allFit now claims s = true := allFit_of_admits apart admits fun spec mark member declines => by
      have asked := mem_shortfalls.mpr ⟨spec, mark, member, declines, rfl⟩
      rw [nothing] at asked
      cases asked
    rw [fit] at unfit
    cases unfit
  obtain ⟨slowest, mark, member, declines, rfl⟩ := mem_shortfalls.mp asked
  obtain ⟨number, nonneg⟩ := waits slowest (toSpec _ _ member)
  refine ⟨(slowest.wait now s).toRat, slowest, nonneg, toSpec _ _ member, declines,
    number, by rw [waited]; rfl, blocked, ?_, ?_⟩
  · intro spec inside short
    obtain ⟨mark', inside'⟩ := toClaim spec inside
    exact ⟨_, (waits spec inside).1, bound _ (mem_shortfalls.mpr ⟨spec, mark', inside', short, rfl⟩)⟩
  · intro persists
    have fit := allFit_later exact' apart admits (fun spec mark' inside short =>
      ⟨_, (waits spec (toSpec _ _ inside)).1,
        add_le_add_right (bound _ (mem_shortfalls.mpr ⟨spec, mark', inside, short, rfl⟩)) now⟩) (each persists)
    refine ⟨?_, fun t since early => ⟨slowest, toSpec _ _ member, ?_⟩⟩
    · rcases acquireMultiLimit_usable marks usable (now + (slowest.wait now s).toRat)
        ((plannedBuckets now claims s).foldl (PlannedBucket.write 86400 now) (checked now claims s))
          with ⟨-, after, admitted⟩ | ⟨unfit', -⟩
      · exact ⟨_, after, admitted, rfl⟩
      · rw [fit] at unfit'
        cases unfit'
    · obtain ⟨r, cost, config, amount, period, nonneg', fits⟩ := exact_ _ (toSpec _ _ member)
      obtain ⟨l, reads⟩ := refill_exact r s slowest.key now
      obtain ⟨before, after, split⟩ := List.append_of_mem member
      have counts := refused_bucket split apart config reads
      have lives := (persists _ (toSpec _ _ member)).1 slowest.key (by simp [MultiLimitSpec.home])
      rw [config, amount, (counts.congr (live_between lives since early.le)).refill, Level.state, fin_lt_fin]
      rw [TokenBucketSpec.Declines, config, amount, reads] at declines
      rw [TokenBucketSpec.wait, config, amount, reads, Level.tokenWait_state] at early
      exact (Level.short_of_declined period nonneg' declines).short_before period early

/-- A reported wait is sufficient and not early, for one bucket and for a list. -/
theorem reported_wait_suffices :
    (∀ (r : Rate) (cost : ℚ) (key : String) (mark : Option ClaimMark) (now : ℚ) (s s' : State) (result : AcquireTokensResult),
      0 < r.interval → 0 ≤ cost → cost ≤ r.maxTokens →
      (acquireTokens key (fin cost) r.config mark now).run s = (.ok result, s') → result.acquired = false →
      ∃ w : ℚ, 0 ≤ w ∧ result.waitTime = some (fin w) ∧ (s'.live key (now + w) = s'.live key now →
        (∃ result' s'', (acquireTokens key (fin cost) r.config mark (now + w)).run s' = (.ok result', s'') ∧
          result'.acquired = true) ∧
        ∀ t, now ≤ t → t < now + w → (refill s' key r.config t).tokens < fin cost)) ∧
    ∀ (specs : List MultiLimitSpec) (now : ℚ) (s s' : State) (result : AcquireMultiLimitResult),
      (∀ spec ∈ specs, spec.Exact) → (specs.flatMap MultiLimitSpec.home).Nodup →
      (∀ spec, .concurrency spec ∈ specs → spec.Admits now s) →
      (acquireMultiLimit specs now).run s = (.ok result, s') → result.acquired = false →
      ∃ (w : ℚ) (slowest : TokenBucketSpec), 0 ≤ w ∧ .tokenBucket slowest ∈ specs ∧ slowest.Declines now s ∧
        slowest.wait now s = fin w ∧ result.waitTime = some (fin w) ∧ result.blockedBy = some slowest.key ∧
        (∀ spec, .tokenBucket spec ∈ specs → spec.Declines now s → ∃ w', spec.wait now s = fin w' ∧ w' ≤ w) ∧
        ((∀ spec ∈ specs, spec.Persists now (now + w) s') →
          (∃ result' s'', (acquireMultiLimit specs (now + w)).run s' = (.ok result', s'') ∧
            result'.acquired = true) ∧ ∀ t, now ≤ t → t < now + w → ∃ spec, .tokenBucket spec ∈ specs ∧
            (refill s' spec.key spec.config t).tokens < spec.cost) :=
  ⟨fun _ _ _ _ _ _ _ _ period nonneg fits run declined => acquireTokens_wait period nonneg fits run declined,
    fun _ _ _ _ _ exact_ apart slots run declined => acquireMultiLimit_wait exact_ apart slots run declined⟩

/-- Two buckets of ten, one asked for all it has and one for half. -/
def twoBuckets : List MultiLimitSpec :=
  [.tokenBucket ⟨"half", fin 5, fivePerSecond.config, none, none⟩,
    .tokenBucket ⟨"all", fin 10, fivePerSecond.config, none, none⟩]

def claimedOnce : State := ((acquireMultiLimit twoBuckets 0).run State.fresh).2

theorem live_lasting {key : String} {later : ℚ} (order : now ≤ later)
    (lasts : (s.store key).all (fun e => !e.expired later) = true) : s.live key later = s.live key now := by
  rw [State.live_later order]
  cases found : s.live key now with
  | none => rfl
  | some e =>
    rw [(State.live_eq_some.mp found).1] at lasts
    simpa using lasts

theorem reported_wait_suffices_twice : ∃ result s',
    (acquireMultiLimit twoBuckets 0).run claimedOnce = (.ok result, s') ∧
    result.waitTime = some (fin 2000) ∧ result.blockedBy = some "all" ∧
    ∃ result' s'', (acquireMultiLimit twoBuckets 2000).run s' = (.ok result', s'') ∧ result'.acquired = true := by
  have ran : ((acquireMultiLimit twoBuckets 0).run claimedOnce).1.toOption.any (fun result =>
      decide (result.acquired = false ∧ result.waitTime = some (fin 2000) ∧ result.blockedBy = some "all")) = true := by
    decide +kernel
  have lasts : ∀ k ∈ ["half", "all"], (((acquireMultiLimit twoBuckets 0).run claimedOnce).2.store k).all
      (fun e => !e.expired 2000) = true := by decide +kernel
  cases run : (acquireMultiLimit twoBuckets 0).run claimedOnce with
  | mk outcome s' =>
    rw [run] at ran lasts
    cases outcome with
    | error e => cases ran
    | ok result =>
      obtain ⟨declined, waits, blocked⟩ := of_decide_eq_true ran
      have exact_ : ∀ spec ∈ twoBuckets, spec.Exact := by
        intro spec member
        simp only [twoBuckets, List.mem_cons, List.not_mem_nil, or_false] at member
        rcases member with rfl | rfl
        · exact ⟨fivePerSecond, 5, rfl, rfl, by norm_num [fivePerSecond], by norm_num, by norm_num [fivePerSecond]⟩
        · exact ⟨fivePerSecond, 10, rfl, rfl, by norm_num [fivePerSecond], by norm_num, by norm_num [fivePerSecond]⟩
      have slots : ∀ spec, MultiLimitSpec.concurrency spec ∈ twoBuckets → spec.Admits 0 claimedOnce := by
        intro spec member
        simp [twoBuckets] at member
      obtain ⟨w, -, -, -, -, -, waits', -, -, retry⟩ :=
        reported_wait_suffices.2 twoBuckets 0 claimedOnce s' result exact_ (by decide) slots run declined
      rw [waits] at waits'
      cases waits'
      have persists : ∀ spec ∈ twoBuckets, spec.Persists 0 (0 + 2000) s' := by
        intro spec member
        simp only [twoBuckets, List.mem_cons, List.not_mem_nil, or_false] at member
        rcases member with rfl | rfl
        · exact ⟨by simpa [MultiLimitSpec.home] using live_lasting (by norm_num) (lasts _ (by simp)), by simp⟩
        · exact ⟨by simpa [MultiLimitSpec.home] using live_lasting (by norm_num) (lasts _ (by simp)), by simp⟩
      have again := (retry persists).1
      rw [zero_add] at again
      exact ⟨result, s', rfl, waits, blocked, again⟩

end Retry

end Dianemo
