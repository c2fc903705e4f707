import Dianemo.Items
import Dianemo.Library.Packing

namespace Dianemo

open JsNumber

section Lua

/-- `tonumber`. -/
def tonumber : Option Field → Option JsNumber
  | some (.num x) => some x
  | some (.exponential q) => some (fin q)
  | _ => none

/-- `tonumber(raw) or default`, with a `nan` replaced as well. -/
def luaNumber (raw : Option Field) (default : ℚ) : JsNumber :=
  let x := (tonumber raw).getD (fin default)
  if x = nan then fin default else x

/-- Two comparisons that hold a number between its bounds. -/
def luaClamp (x : JsNumber) (least most : ℚ) : JsNumber :=
  let raised := if x < fin least then fin least else x
  if fin most < raised then fin most else raised

/-- The score the `updateRequest` script writes, from the stored strings. -/
def luaRescore (priority retries timestamp : Option Field) : JsNumber :=
  let arrival := luaClamp (luaNumber timestamp 0 - fin queueScoreEpochMs) 0 (queueRetryBand - 1)
  (fin maxQueuePriority - luaClamp (luaNumber priority 1) 0 maxQueuePriority) * fin queuePriorityBand +
    (fin maxQueueRetries - luaClamp (luaNumber retries 0) 0 maxQueueRetries) * fin queueRetryBand + arrival

theorem luaNumber_eq (raw : Option Field) (default : ℚ) :
    luaNumber raw default = parseStoredNumber raw default := by
  match raw with
  | none => rfl
  | some (.num x) => rfl
  | some (.exponential q) => rfl
  | some (.record amounts) => rfl
  | some (.text s) => rfl

theorem parseStoredNumber_ne_nan (raw : Option Field) (default : ℚ) : parseStoredNumber raw default ≠ nan := by
  rw [← luaNumber_eq]
  by_cases absent : (tonumber raw).getD (fin default) = nan
  · simp [luaNumber, absent]
  · simp [luaNumber, absent]

theorem clamp_fin {q least most : ℚ} : (fin q).clamp least most = fin (min (max q least) most) := by
  rw [JsNumber.clamp, max_fin, min_fin]

/-- A number held between its bounds is finite, whatever it was. -/
theorem clamp_finite {x : JsNumber} (number : x ≠ nan) (least most : ℚ) : ∃ q : ℚ, x.clamp least most = fin q := by
  cases x with
  | fin q => exact ⟨_, clamp_fin⟩
  | posInf => exact ⟨most, rfl⟩
  | negInf => exact ⟨min least most, by rw [← min_fin]; rfl⟩
  | nan => exact absurd rfl number

theorem luaClamp_eq {x : JsNumber} (number : x ≠ nan) {least most : ℚ} (order : least ≤ most) :
    luaClamp x least most = x.clamp least most := by
  cases x with
  | fin q =>
    rw [clamp_fin]
    simp only [luaClamp, fin_lt_fin]
    by_cases low : q < least
    · simp only [if_pos low, fin_lt_fin, if_neg order.not_gt, max_eq_right low.le, min_eq_left order]
    · simp only [if_neg low, fin_lt_fin, max_eq_left (not_lt.mp low)]
      by_cases high : most < q
      · rw [if_pos high, min_eq_right high.le]
      · rw [if_neg high, min_eq_left (not_lt.mp high)]
  | posInf => rfl
  | negInf =>
    have same : negInf.clamp least most = fin (min least most) := by
      rw [← min_fin]
      rfl
    have crossed : ¬ fin most < fin least := by rw [fin_lt_fin]; exact order.not_gt
    rw [same, min_eq_left order]
    exact if_neg crossed
  | nan => exact absurd rfl number

theorem sub_ne_nan {x : JsNumber} (number : x ≠ nan) (q : ℚ) : x - fin q ≠ nan := by
  cases x with
  | fin p =>
    rw [sub_fin]
    exact JsNumber.noConfusion
  | posInf => exact JsNumber.noConfusion
  | negInf => exact JsNumber.noConfusion
  | nan => exact absurd rfl number

/-- Re-scored in Lua or in TypeScript, stored strings give one number. -/
theorem luaRescore_eq (priority retries timestamp : Option Field) :
    luaRescore priority retries timestamp =
      fin (rescore (parseStoredNumber priority 1) (parseStoredNumber retries 0) (parseStoredNumber timestamp 0)) := by
  have one := parseStoredNumber_ne_nan priority 1
  have two := parseStoredNumber_ne_nan retries 0
  have three := sub_ne_nan (parseStoredNumber_ne_nan timestamp 0) queueScoreEpochMs
  obtain ⟨p, atP⟩ := clamp_finite one 0 maxQueuePriority
  obtain ⟨q, atQ⟩ := clamp_finite two 0 maxQueueRetries
  obtain ⟨a, atA⟩ := clamp_finite three 0 (queueRetryBand - 1)
  have wide : (0 : ℚ) ≤ queueRetryBand - 1 := by norm_num [queueRetryBand]
  have tall : (0 : ℚ) ≤ maxQueuePriority := by norm_num [maxQueuePriority]
  have many : (0 : ℚ) ≤ maxQueueRetries := by norm_num [maxQueueRetries]
  simp only [zero_eq, one_eq] at *
  simp only [luaRescore, rescore, bandScore, luaNumber_eq, luaClamp_eq one tall, luaClamp_eq two many,
    luaClamp_eq three wide, atP, atQ, atA, sub_fin, mul_fin, add_fin, toRat_fin]

end Lua

section Bands

/-- A timestamp the version-1 scores tell apart. -/
def InScoreEpoch (timestamp : ℤ) : Prop :=
  queueScoreEpochMs ≤ timestamp ∧ (timestamp : ℚ) < queueScoreEpochMs + queueRetryBand

/-- What an entry is ordered by: the higher priority, the more retries, the earlier arrival. -/
def queueRank (priority retries timestamp : ℤ) : ℤ ×ₗ ℤ ×ₗ ℤ :=
  toLex (-min (max priority 0) 10, toLex (-min (max retries 0) 100, timestamp))

/-- The bands packed into one number. -/
def packedScore (priority retries timestamp : ℤ) : ℤ :=
  Packing.pack 1000000000000 (Packing.pack 101 (10 - min (max priority 0) 10) (100 - min (max retries 0) 100))
    (timestamp - 1767225600000)

variable {priority retries timestamp priority' retries' timestamp' : ℤ}

theorem InScoreEpoch.arrival (within : InScoreEpoch timestamp) :
    timestamp - 1767225600000 ∈ Set.Ico (0 : ℤ) 1000000000000 := by
  obtain ⟨since, before⟩ := within
  simp only [queueScoreEpochMs, queueRetryBand] at since before
  have low : (1767225600000 : ℤ) ≤ timestamp := by exact_mod_cast since
  have high : timestamp < (1767225600000 + 1000000000000 : ℤ) := by exact_mod_cast before
  exact ⟨by omega, by omega⟩

theorem priorityDigit (priority : ℤ) : 10 - min (max priority 0) 10 ∈ Set.Ico (0 : ℤ) 11 := ⟨by omega, by omega⟩

theorem retriesDigit (retries : ℤ) : 100 - min (max retries 0) 100 ∈ Set.Ico (0 : ℤ) 101 := ⟨by omega, by omega⟩

/-- Every band arithmetic result is an integer: nothing is rounded. -/
theorem rescore_packed (within : InScoreEpoch timestamp) :
    rescore (fin priority) (fin retries) (fin timestamp) = packedScore priority retries timestamp := by
  obtain ⟨least, most⟩ := within.arrival
  have arrived : ((timestamp : ℚ) - queueScoreEpochMs) = ((timestamp - 1767225600000 : ℤ) : ℚ) := by
    push_cast [queueScoreEpochMs]
    ring
  have held : Min.min (Max.max ((timestamp - 1767225600000 : ℤ) : ℚ) 0) (queueRetryBand - 1) =
      ((timestamp - 1767225600000 : ℤ) : ℚ) := by
    rw [max_eq_left (by exact_mod_cast least), min_eq_left]
    have bound : timestamp - 1767225600000 ≤ (999999999999 : ℤ) := by omega
    calc ((timestamp - 1767225600000 : ℤ) : ℚ) ≤ ((999999999999 : ℤ) : ℚ) := by exact_mod_cast bound
      _ = queueRetryBand - 1 := by norm_num [queueRetryBand]
  simp only [rescore, bandScore, clamp_fin, sub_fin, mul_fin, add_fin, toRat_fin, arrived, held]
  simp only [packedScore, Packing.pack, maxQueuePriority, maxQueueRetries, queuePriorityBand, queueRetryBand]
  push_cast
  ring

theorem packedScore_mem (within : InScoreEpoch timestamp) :
    packedScore priority retries timestamp ∈ Set.Ico 0 (1111000000000000 : ℤ) :=
  Packing.pack_mem (Packing.pack_mem (priorityDigit priority) (retriesDigit retries)) within.arrival

theorem calculateQueueScore_packed (within : InScoreEpoch timestamp) :
    calculateQueueScore (fin priority) (fin retries) (fin timestamp) =
      .ok (packedScore priority retries timestamp : ℚ) := by
  obtain ⟨least, most⟩ : packedScore priority retries timestamp ∈ Set.Ico 0 (1111000000000000 : ℤ) :=
    packedScore_mem within
  have early : ¬ queueRetryBand ≤ (timestamp : ℚ) - queueScoreEpochMs := by linarith [within.2]
  have score : rescore (fin priority) (fin retries) (fin timestamp) = packedScore priority retries timestamp :=
    rescore_packed within
  have held : ((fin timestamp - fin queueScoreEpochMs).clamp 0 (queueRetryBand - 1)) =
      fin timestamp - fin queueScoreEpochMs := by
    have since : (0 : ℚ) ≤ (timestamp : ℚ) - queueScoreEpochMs := by linarith [within.1]
    have before : (timestamp : ℚ) - queueScoreEpochMs ≤ queueRetryBand - 1 := by
      have bound : timestamp - 1767225600000 ≤ (999999999999 : ℤ) := by have := within.arrival.2; omega
      have cast : ((timestamp - 1767225600000 : ℤ) : ℚ) ≤ ((999999999999 : ℤ) : ℚ) := by exact_mod_cast bound
      push_cast at cast
      norm_num [queueScoreEpochMs, queueRetryBand] at cast ⊢
      linarith
    rw [sub_fin, clamp_fin, max_eq_left since, min_eq_left before]
  have safe : (fin (packedScore priority retries timestamp : ℚ)).isSafeInteger = true := by
    refine decide_eq_true ⟨by rw [Int.floor_intCast], ?_⟩
    have bound : |packedScore priority retries timestamp| ≤ (9007199254740991 : ℤ) :=
      abs_le.mpr ⟨by omega, by omega⟩
    calc |(packedScore priority retries timestamp : ℚ)| =
      ((|packedScore priority retries timestamp| : ℤ) : ℚ) := by push_cast; rfl
      _ ≤ ((9007199254740991 : ℤ) : ℚ) := by exact_mod_cast bound
      _ = maxSafeInteger := by norm_num [maxSafeInteger]
  have banded : bandScore ((fin priority).clamp 0 maxQueuePriority) ((fin retries).clamp 0 maxQueueRetries)
      (fin timestamp - fin queueScoreEpochMs) = fin (packedScore priority retries timestamp : ℚ) := by
    rw [← score, rescore, held]
    simp only [bandScore, clamp_fin, sub_fin, mul_fin, add_fin, toRat_fin]
  rw [sub_fin] at banded
  simp only [calculateQueueScore, banded, safe, if_true, toRat_fin, sub_fin, fin_le_fin, if_neg early]

theorem queueRank_lt : queueRank priority retries timestamp < queueRank priority' retries' timestamp' ↔
    (10 - min (max priority 0) 10 < 10 - min (max priority' 0) 10 ∨
      10 - min (max priority 0) 10 = 10 - min (max priority' 0) 10 ∧
        (100 - min (max retries 0) 100 < 100 - min (max retries' 0) 100 ∨
          100 - min (max retries 0) 100 = 100 - min (max retries' 0) 100 ∧ timestamp < timestamp')) := by
  simp only [queueRank, Prod.Lex.toLex_lt_toLex]
  omega

theorem packedScore_lt (within : InScoreEpoch timestamp) (within' : InScoreEpoch timestamp') :
    packedScore priority retries timestamp < packedScore priority' retries' timestamp' ↔
      queueRank priority retries timestamp < queueRank priority' retries' timestamp' := by
  rw [packedScore, packedScore, Packing.pack_lt_pack within.arrival within'.arrival,
    Packing.pack_lt_pack (retriesDigit retries) (retriesDigit retries'), Packing.pack_inj (retriesDigit retries)
      (retriesDigit retries'), queueRank_lt]
  omega

theorem packedScore_inj (within : InScoreEpoch timestamp) (within' : InScoreEpoch timestamp') :
    packedScore priority retries timestamp = packedScore priority' retries' timestamp' ↔
      queueRank priority retries timestamp = queueRank priority' retries' timestamp' := by
  rw [packedScore, packedScore, Packing.pack_inj within.arrival within'.arrival,
    Packing.pack_inj (retriesDigit retries)
    (retriesDigit retries')]
  simp only [queueRank, EmbeddingLike.apply_eq_iff_eq, Prod.mk.injEq]
  omega

/-- Past its horizon a timestamp has no score. -/
theorem calculateQueueScore_late {t : JsNumber} (late : fin (queueScoreEpochMs + queueRetryBand) ≤ t)
    (priority retries : JsNumber) : ∃ e, calculateQueueScore priority retries t = .error e := by
  have past : fin queueRetryBand ≤ t - fin queueScoreEpochMs := by
    cases t with
    | fin q =>
      rw [fin_le_fin] at late
      rw [sub_fin, fin_le_fin]
      linarith
    | posInf => rfl
    | negInf => cases late
    | nan => cases late
  exact ⟨_, if_pos past⟩

/-- A score is a safe integer that orders entries by their bands, a re-score on
either backend writes the same one, and past the horizon none is given. -/
theorem score_order_embedding :
    (∀ priority retries timestamp : ℤ, InScoreEpoch timestamp →
      ∃ n : ℤ, calculateQueueScore (fin priority) (fin retries) (fin timestamp) =
        .ok (n : ℚ) ∧ 0 ≤ n ∧ n < 2 ^ 53) ∧
    (∀ priority retries timestamp priority' retries' timestamp' : ℤ, InScoreEpoch timestamp →
      InScoreEpoch timestamp' →
      ∀ score score' : ℚ, calculateQueueScore (fin priority) (fin retries) (fin timestamp) = .ok score →
        calculateQueueScore (fin priority') (fin retries') (fin timestamp') = .ok score' →
        (score < score' ↔ queueRank priority retries timestamp < queueRank priority' retries' timestamp') ∧
        (score = score' ↔ queueRank priority retries timestamp = queueRank priority' retries' timestamp')) ∧
    (∀ priority retries timestamp : ℤ,
      luaRescore (some (.num (fin priority))) (some (.num (fin retries))) (some (.num (fin timestamp))) =
        fin (rescore (fin priority) (fin retries) (fin timestamp)) ∧
      (InScoreEpoch timestamp → calculateQueueScore (fin priority) (fin retries) (fin timestamp) =
        .ok (rescore (fin priority) (fin retries) (fin timestamp)))) ∧
    ∀ priority retries timestamp : JsNumber, fin (queueScoreEpochMs + queueRetryBand) ≤ timestamp →
      ∃ e, calculateQueueScore priority retries timestamp = .error e := by
  refine ⟨fun p r t within => ?_, fun p r t p' r' t' within within' score score' run run' =>
    ?_, fun p r t => ⟨?_, ?_⟩, fun p r t late => calculateQueueScore_late late p r⟩
  · obtain ⟨least, most⟩ : packedScore p r t ∈ Set.Ico 0 (1111000000000000 : ℤ) := packedScore_mem within
    exact ⟨_, calculateQueueScore_packed within, least, most.trans (by norm_num)⟩
  · rw [calculateQueueScore_packed within, Except.ok.injEq] at run
    rw [calculateQueueScore_packed within', Except.ok.injEq] at run'
    subst run run'
    exact ⟨by rw [Int.cast_lt, packedScore_lt within within'], by rw [Int.cast_inj, packedScore_inj within within']⟩
  · exact luaRescore_eq _ _ _
  · intro within
    rw [calculateQueueScore_packed within, rescore_packed within]

theorem score_order_embedding_retried :
    ∃ n n' : ℤ, calculateQueueScore (fin (1 : ℤ)) (fin (1 : ℤ)) (fin (1767225600500 : ℤ)) = .ok (n : ℚ) ∧
      calculateQueueScore (fin (1 : ℤ)) (fin (0 : ℤ)) (fin (1767225600000 : ℤ)) = .ok (n' : ℚ) ∧ (n : ℚ) < n' := by
  have within : InScoreEpoch 1767225600500 := by norm_num [InScoreEpoch, queueScoreEpochMs, queueRetryBand]
  have within' : InScoreEpoch 1767225600000 := by norm_num [InScoreEpoch, queueScoreEpochMs, queueRetryBand]
  obtain ⟨n, run, -⟩ := score_order_embedding.1 1 1 1767225600500 within
  obtain ⟨n', run', -⟩ := score_order_embedding.1 1 0 1767225600000 within'
  refine ⟨n, n', run, run', ((score_order_embedding.2.1 1 1 1767225600500 1 0 1767225600000 within within' n n' run run').1).mpr ?_⟩
  decide

end Bands

end Dianemo
