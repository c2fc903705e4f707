import Dianemo.MultiLimit

namespace Dianemo

open JsNumber

namespace State

@[simp] theorem put_store_self (s : State) (key : String) (e : Entry) : (s.put key e).store key = some e :=
  Function.update_self ..

@[simp] theorem put_store_ne {s : State} {key other : String} {e : Entry} (ne : other ≠ key) :
    (s.put key e).store other = s.store other :=
  Function.update_of_ne ne ..

@[simp] theorem put_epochs (s : State) (key : String) (e : Entry) : (s.put key e).epochs = s.epochs := rfl

@[simp] theorem delete_store_self (s : State) (key : String) : (s.delete key).store key = none :=
  Function.update_self ..

@[simp] theorem delete_store_ne {s : State} {key other : String} (ne : other ≠ key) :
    (s.delete key).store other = s.store other :=
  Function.update_of_ne ne ..

@[simp] theorem delete_epochs (s : State) (key : String) : (s.delete key).epochs = s.epochs := rfl

theorem put_put (s : State) (key : String) (e e' : Entry) : (s.put key e).put key e' = s.put key e' := by
  simp only [put, Function.update_idem]

theorem live_congr {s s' : State} {key : String} (same : s'.store key = s.store key) (now : ℚ) :
    s'.live key now = s.live key now := by
  simp only [live, same]

theorem live_eq_some {s : State} {key : String} {now : ℚ} {e : Entry} :
    s.live key now = some e ↔ s.store key = some e ∧ e.expired now = false := by
  simp [live, Option.filter_eq_some_iff]

theorem live_put_self {s : State} {key : String} {e : Entry} {now : ℚ} (fresh : e.expired now = false) :
    (s.put key e).live key now = some e :=
  live_eq_some.mpr ⟨put_store_self s key e, fresh⟩

theorem live_delete_self (s : State) (key : String) (now : ℚ) : (s.delete key).live key now = none := by
  simp [live]

/-- The entry a write starts from is never an expired one. -/
theorem entry_expired (s : State) (key : String) (now : ℚ) : (s.entry key now).expired now = false := by
  unfold entry
  cases found : s.live key now with
  | none => rfl
  | some e => exact (live_eq_some.mp found).2

theorem hget_congr {s s' : State} {key : String} {now : ℚ} (same : s'.live key now = s.live key now)
    (field : String) : s'.hget key field now = s.hget key field now := by
  simp only [hget, hash, same]

end State

theorem expired_of_lt {e : Entry} {t now : ℚ} (at_ : e.expiresAt = some t) (later : now < t) :
    e.expired now = false := by
  simp [Entry.expired, at_, later]

/-- A lifetime in whole seconds that every write accepts as it is. -/
structure WholeTtl (t : ℚ) : Prop where
  pos : 0 < t
  le_max : t ≤ redisMaxTtlSeconds
  whole : (⌈t⌉ : ℚ) = t

theorem WholeTtl.day : WholeTtl 86400 where
  pos := by norm_num
  le_max := by norm_num [redisMaxTtlSeconds]
  whole := by norm_num

theorem WholeTtl.normalize {t : ℚ} (whole : WholeTtl t) : normalizeTtlSeconds t = .ok t := by
  have below : ¬ redisMaxTtlSeconds < t := not_lt.mpr whole.le_max
  have above : ¬ t ≤ 0 := not_le.mpr whole.pos
  simp only [normalizeTtlSeconds, below, above, if_false, whole.whole]

/-- A positive lifetime that `normalizeTtlSeconds` returns is accepted unchanged from then on. -/
theorem normalizeTtlSeconds_whole {x : JsNumber} {t : ℚ} (run : normalizeTtlSeconds x = .ok t) (pos : 0 < t) :
    WholeTtl t := by
  cases x with
  | fin q =>
    simp only [normalizeTtlSeconds] at run
    split at run
    · cases run
    · rename_i bounded
      split at run
      · cases run
        exact absurd pos (lt_irrefl 0)
      · cases run
        refine ⟨pos, ?_, by rw [Int.ceil_intCast]⟩
        have limit : ⌈q⌉ ≤ (9200000000000000 : ℤ) := by
          rw [Int.ceil_le]
          simpa [redisMaxTtlSeconds] using not_lt.mp bounded
        have cast : (⌈q⌉ : ℚ) ≤ ((9200000000000000 : ℤ) : ℚ) := Int.cast_le.mpr limit
        simpa [redisMaxTtlSeconds] using cast
  | posInf => cases run
  | negInf => cases run
  | nan => cases run

theorem normalizeStateTtlSeconds_whole {x : JsNumber} {t : ℚ} (run : normalizeStateTtlSeconds x = .ok t) :
    WholeTtl t := by
  unfold normalizeStateTtlSeconds at run
  cases first : normalizeTtlSeconds x with
  | error e => simp [first, bind, Except.bind] at run
  | ok t' =>
    simp only [first, bind, Except.bind] at run
    split at run
    · cases run
    · rename_i positive
      cases run
      exact normalizeTtlSeconds_whole first (not_le.mp positive)

theorem normalizeStateTtlSeconds_day : normalizeStateTtlSeconds 86400 = .ok 86400 := by
  have day : normalizeTtlSeconds 86400 = .ok 86400 := WholeTtl.day.normalize
  have positive : ¬ (86400 : ℚ) ≤ 0 := by norm_num
  simp only [normalizeStateTtlSeconds, day, bind, Except.bind, if_neg positive]

theorem claimMark_whole {mark : Option ClaimMark} {claim : String × ℚ} (run : claimMark mark = .ok (some claim)) :
    WholeTtl claim.2 := by
  cases mark with
  | none => simp [claimMark] at run
  | some mark =>
    simp only [claimMark] at run
    cases ttl : normalizeStateTtlSeconds mark.ttlSeconds with
    | error e => simp [ttl, Except.map] at run
    | ok t =>
      simp only [ttl, Except.map, Except.ok.injEq, Option.some.injEq] at run
      subst run
      exact normalizeStateTtlSeconds_whole ttl

theorem claimMark_id {mark : Option ClaimMark} {made : Option (String × ℚ)} (run : claimMark mark = .ok made)
    {claim : String × ℚ} (marked : claim ∈ made) : ∃ given, mark = some given ∧ given.id = claim.1 := by
  cases mark with
  | none =>
    cases run
    cases marked
  | some mark =>
    refine ⟨mark, rfl, ?_⟩
    simp only [claimMark] at run
    cases ttl : normalizeStateTtlSeconds mark.ttlSeconds with
    | error e => simp [ttl, Except.map] at run
    | ok t =>
      simp only [ttl, Except.map, Except.ok.injEq] at run
      subst run
      cases marked
      rfl

/-- What a usable budget's numbers are. The refill rate may be infinite. -/
theorem unusableBudget_none {cost : JsNumber} {config : TokenBucketConfig} :
    unusableBudget cost config = none ↔ ∃ maxTokens interval amount : ℚ,
      config.maxTokens = fin maxTokens ∧ 0 < maxTokens ∧ config.interval = fin interval ∧
      cost = fin amount ∧ 0 ≤ amount ∧ 0 < config.tokensToAdd := by
  constructor
  · intro usable
    simp only [unusableBudget] at usable
    split_ifs at usable with rate ceiling spend interval
    rw [not_or, not_not] at ceiling
    obtain ⟨maxTokens, atMax⟩ := isFinite_iff.mp ceiling.1
    obtain ⟨period, atPeriod⟩ := isFinite_iff.mp interval
    simp only [usableCost, Bool.and_eq_true, decide_eq_true_eq] at spend
    obtain ⟨amount, rfl⟩ := isFinite_iff.mp spend.1
    have positive := ceiling.2
    rw [atMax, zero_eq, fin_le_fin, not_le] at positive
    have nonneg := spend.2
    rw [zero_eq, fin_le_fin] at nonneg
    exact ⟨maxTokens, period, amount, atMax, positive, atPeriod, rfl, nonneg, rate⟩
  · rintro ⟨maxTokens, interval, amount, atMax, positive, atInterval, rfl, nonneg, rate⟩
    have above : ¬ maxTokens ≤ 0 := not_le.mpr positive
    rw [zero_eq] at rate
    simp [unusableBudget, usableCost, atMax, atInterval, rate, above, nonneg]

/-- A usable budget never asks for a lifetime the store refuses, and never for
less than the caller did. -/
theorem bucketTtl_whole {ttl : ℚ} (whole : WholeTtl ttl) {cost : JsNumber} {config : TokenBucketConfig}
    (usable : unusableBudget cost config = none) :
    ∃ lifetime, bucketTtl ttl config = fin lifetime ∧ WholeTtl lifetime ∧ ttl ≤ lifetime := by
  obtain ⟨maxTokens, interval, -, atMax, -, atInterval, -, -, rate⟩ := unusableBudget_none.mp usable
  have thousand : (1000 : ℚ) ≠ 0 := by norm_num
  cases atRate : config.tokensToAdd with
  | fin tokensToAdd =>
    rw [atRate, zero_eq, fin_lt_fin] at rate
    simp only [bucketTtl, atMax, atRate, atInterval, div_fin rate.ne', ceil_fin, mul_fin, ofNat_eq,
      div_fin thousand, fin_lt_fin, min_fin]
    split
    · exact ⟨ttl, rfl, whole, le_rfl⟩
    · rename_i longer
      rw [not_not] at longer
      refine ⟨_, rfl, ⟨lt_min (whole.pos.trans longer) (by norm_num [redisMaxTtlSeconds]), min_le_right _ _, ?_⟩,
        le_min longer.le whole.le_max⟩
      rcases min_choice (⌈(⌈maxTokens / tokensToAdd⌉ : ℚ) * interval / 1000⌉ : ℚ) redisMaxTtlSeconds
        with own | limit
      · rw [own, Int.ceil_intCast]
      · rw [limit]
        norm_num [redisMaxTtlSeconds]
  | posInf =>
    refine ⟨ttl, ?_, whole, le_rfl⟩
    have none_ : ¬ fin ttl < fin ((⌈(((⌈(0 : ℚ)⌉ : ℤ) : ℚ) * interval) / 1000⌉ : ℤ) : ℚ) := by
      rw [fin_lt_fin]
      simpa using whole.pos.le
    have spent : fin maxTokens / posInf = fin 0 := rfl
    simp only [bucketTtl, atMax, atRate, atInterval, spent, ceil_fin, mul_fin, ofNat_eq, div_fin thousand]
    rw [if_pos none_]
  | negInf =>
    rw [atRate] at rate
    cases rate
  | nan =>
    rw [atRate] at rate
    cases rate

/-- The fields a hash holds once `fields` are set in turn. -/
def withFields (h : Fields) (fields : List (String × Field)) : Fields :=
  fields.foldl (fun h f => h.insert f.1 f.2) h

/-- Fields set and the key given `ttl` seconds from `now`. -/
def State.putFields (s : State) (key : String) (now : ℚ) (fields : List (String × Field)) (ttl : ℚ) : State :=
  s.put key { s.entry key now with
    hash := some (withFields ((s.entry key now).hash.getD ∅) fields)
    expiresAt := some (now + ttl * 1000) }

theorem expire_setFields {ttl : ℚ} (whole : WholeTtl ttl) (s : State) (key : String) (now : ℚ)
    (fields : List (String × Field)) :
    (expire key ttl now).run (s.setFields key now fields) = (.ok (), s.putFields key now fields ttl) := by
  have kept : (s.setFields key now fields).live key now =
      some { s.entry key now with hash := some (withFields ((s.entry key now).hash.getD ∅) fields) } :=
    State.live_put_self (s.entry_expired key now)
  have above : ¬ ttl ≤ 0 := not_le.mpr whole.pos
  rw [expire, Op.run_bind_ok (by rw [whole.normalize]; rfl), Op.run_modify]
  simp only [kept, above, if_false]
  rw [State.setFields, State.put_put]
  rfl

theorem writeBucket_run {ttl : ℚ} (whole : WholeTtl ttl) {ttlSeconds : JsNumber} (config : Option TokenBucketConfig)
    (sized : normalizeTtlSeconds (config.elim ttlSeconds (bucketTtl ttlSeconds)) = .ok ttl) (key : String)
    (state : BucketState) (now : ℚ) (s : State) :
    (writeBucket key state ttlSeconds config now).run s = (.ok (), s.putFields key now state.fields ttl) := by
  rw [writeBucket, Op.run_bind_ok (by rw [sized]; rfl), Op.run_bind_ok (Op.run_modify _ _)]
  exact expire_setFields whole s key now state.fields

/-- A mark recorded against the bucket, which takes an epoch if it has none. -/
def State.putMark (s : State) (key : String) (mark : String × ℚ) (cost : JsNumber) (state : BucketState)
    (now : ℚ) : State :=
  (takeEpoch s key now).putFields (claimMarkKey key mark.1) now
    (markFields (takeEpoch s key now) key cost state now) mark.2

theorem writeMark_run {mark : String × ℚ} (whole : WholeTtl mark.2) (key : String) (cost : JsNumber)
    (state : BucketState) (now : ℚ) (s : State) :
    (writeMark key mark cost state now).run s = (.ok (), s.putMark key mark cost state now) := by
  rw [writeMark, Op.run_bind_ok (Op.run_modify _ _), Op.run_bind_ok (Op.run_modify _ _)]
  exact expire_setFields whole _ _ now _

/-- The state an admitted spend leaves. -/
def State.spend (s : State) (key : String) (state : BucketState) (cost : JsNumber) (ttl : ℚ)
    (mark : Option (String × ℚ)) (now : ℚ) : State :=
  let spent := s.putFields key now { state with tokens := state.tokens - cost }.fields ttl
  match mark with
  | none => spent
  | some mark => spent.putMark key mark cost state now

theorem spendTokens_run {ttl : ℚ} (whole : WholeTtl ttl) {ttlSeconds : JsNumber} {config : TokenBucketConfig}
    (sized : normalizeTtlSeconds (bucketTtl ttlSeconds config) = .ok ttl) {mark : Option (String × ℚ)}
    (marked : ∀ claim ∈ mark, WholeTtl claim.2) (key : String) (state : BucketState) (cost : JsNumber)
    (now : ℚ) (s : State) :
    (spendTokens key state cost ttlSeconds config mark now).run s =
      (.ok (), s.spend key state cost ttl mark now) := by
  unfold spendTokens
  rw [Op.run_bind_ok (writeBucket_run whole (some config) sized _ _ _ _)]
  cases mark with
  | none => rfl
  | some claim => exact writeMark_run (marked claim rfl) _ _ _ _ _

end Dianemo
