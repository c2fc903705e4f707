import Mathlib

namespace Meter

variable {K : Type*} [Field K] [LinearOrder K] [IsStrictOrderedRing K] [FloorRing K]

/-- A counter fed `gain` for every whole `period`, and cut off at `cap`. -/
structure Rule (K : Type*) where
  cap : K
  gain : K
  period : K

/-- The counter, the instant its feed has been accounted to, and everything
the cap has cut off so far. -/
structure Gauge (K : Type*) where
  level : K
  clock : K
  spill : K

/-- Whole periods between `clock` and `now`. None pass while the period is not positive. -/
def Rule.periods (r : Rule K) (clock now : K) : ℕ :=
  if 0 < r.period then ⌊(now - clock) / r.period⌋₊ else 0

/-- What the whole periods up to `now` feed in. -/
def Rule.feed (r : Rule K) (clock now : K) : K := r.periods clock now * r.gain

/-- The gauge with every whole period up to `now` accounted. The clock moves
by whole periods, so the remainder stays available to the next reading. -/
def Gauge.advance (r : Rule K) (now : K) (g : Gauge K) : Gauge K where
  level := min r.cap (g.level + r.feed g.clock now)
  clock := g.clock + r.periods g.clock now * r.period
  spill := g.spill + max 0 (g.level + r.feed g.clock now - r.cap)

theorem Rule.feed_nonneg {r : Rule K} (gain : 0 ≤ r.gain) (clock now : K) : 0 ≤ r.feed clock now :=
  mul_nonneg (Nat.cast_nonneg _) gain

/-- Accounted time never runs ahead of `now`. -/
theorem Rule.clock_le {r : Rule K} {clock now : K} (past : clock ≤ now) :
    clock + r.periods clock now * r.period ≤ now := by
  unfold Rule.periods
  split
  · rename_i positive
    have quotient := Nat.floor_le (div_nonneg (sub_nonneg.mpr past) positive.le)
    have bound := (le_div_iff₀ positive).mp quotient
    linarith
  · simpa using past

/-- Less than one whole period is left unaccounted. -/
theorem Rule.lt_clock {r : Rule K} (positive : 0 < r.period) (clock now : K) :
    now - r.period < clock + r.periods clock now * r.period := by
  have quotient := Nat.lt_floor_add_one ((now - clock) / r.period)
  have bound := (div_lt_iff₀ positive).mp quotient
  simp only [Rule.periods, if_pos positive]
  linarith

/-- Accounting twice counts every period once. -/
theorem Rule.periods_add {r : Rule K} (clock : K) {first second : K} (order : first ≤ second) :
    r.periods clock first + r.periods (clock + r.periods clock first * r.period) second =
      r.periods clock second := by
  unfold Rule.periods
  split
  · rename_i positive
    have shift : (second - (clock + (⌊(first - clock) / r.period⌋₊ : K) * r.period)) / r.period =
        (second - clock) / r.period - (⌊(first - clock) / r.period⌋₊ : K) := by
      field_simp
      ring
    have mono : ⌊(first - clock) / r.period⌋₊ ≤ ⌊(second - clock) / r.period⌋₊ :=
      Nat.floor_mono (div_le_div_of_nonneg_right (by linarith) positive.le)
    rw [shift, Nat.floor_sub_natCast]
    omega
  · rfl

/-- So many whole periods have passed exactly when so much time has. -/
theorem Rule.le_periods {r : Rule K} (positive : 0 < r.period) {clock now : K} {n : ℕ} (some_ : n ≠ 0) :
    n ≤ r.periods clock now ↔ clock + n * r.period ≤ now := by
  simp only [Rule.periods, if_pos positive]
  rw [Nat.le_floor_iff' some_, le_div_iff₀ positive]
  constructor
  · intro passed
    linarith
  · intro passed
    linarith

/-- Once so many periods have passed, the gauge holds what they feed in. -/
theorem Gauge.advance_reaches {r : Rule K} (positive : 0 < r.period) (gain : 0 ≤ r.gain)
    {now need : K} {g : Gauge K} {n : ℕ}
    (some_ : n ≠ 0) (passed : g.clock + n * r.period ≤ now) (fits : need ≤ r.cap)
    (enough : need ≤ g.level + n * r.gain) : need ≤ (g.advance r now).level := by
  have counted : (n : K) ≤ r.periods g.clock now := Nat.cast_le.mpr ((Rule.le_periods positive some_).mpr passed)
  have fed : n * r.gain ≤ r.feed g.clock now := mul_le_mul_of_nonneg_right counted gain
  exact le_min fits (by linarith)

/-- While fewer have, it stays below what one period less feeds in. -/
theorem Gauge.advance_short {r : Rule K} (positive : 0 < r.period) (gain : 0 ≤ r.gain)
    {now need : K} {g : Gauge K} {n : ℕ}
    (early : now < g.clock + (n + 1 : ℕ) * r.period) (short : g.level + n * r.gain < need) :
    (g.advance r now).level < need := by
  have counted : r.periods g.clock now ≤ n := by
    by_contra more
    exact early.not_ge ((Rule.le_periods positive n.succ_ne_zero).mp (not_le.mp more))
  have fed : r.feed g.clock now ≤ n * r.gain := mul_le_mul_of_nonneg_right (Nat.cast_le.mpr counted) gain
  calc (g.advance r now).level ≤ g.level + r.feed g.clock now := min_le_right _ _
    _ ≤ g.level + n * r.gain := by linarith
    _ < need := short

omit [IsStrictOrderedRing K] in
theorem Gauge.advance_level_le {r : Rule K} {now : K} {g : Gauge K} : (g.advance r now).level ≤ r.cap :=
  min_le_left _ _

theorem Gauge.spill_le_advance {r : Rule K} {now : K} {g : Gauge K} : g.spill ≤ (g.advance r now).spill :=
  le_add_of_nonneg_right (le_max_left _ _)

theorem Gauge.min_le_advance_level {r : Rule K} {now : K} {g : Gauge K} (gain : 0 ≤ r.gain) :
    min r.cap g.level ≤ (g.advance r now).level :=
  min_le_min_left _ (le_add_of_nonneg_right (r.feed_nonneg gain _ _))

/-- Advancing in two steps is advancing once: readings in between leave no trace. -/
theorem Gauge.advance_advance {r : Rule K} {first second : K} (gain : 0 ≤ r.gain) (order : first ≤ second)
    (g : Gauge K) : (g.advance r first).advance r second = g.advance r second := by
  have counted := r.periods_add g.clock order
  have cast : (r.periods g.clock first : K) +
      r.periods (g.clock + r.periods g.clock first * r.period) second = r.periods g.clock second := by
    exact_mod_cast counted
  have total : r.feed g.clock first + r.feed (g.clock + r.periods g.clock first * r.period) second =
      r.feed g.clock second := by
    simp only [Rule.feed]
    rw [← cast]
    ring
  have later := r.feed_nonneg gain (g.clock + r.periods g.clock first * r.period) second
  simp only [Gauge.advance, Gauge.mk.injEq]
  refine ⟨?_, ?_, ?_⟩
  · rw [← total]
    rcases le_total r.cap (g.level + r.feed g.clock first) with above | under
    · rw [min_eq_left above, min_eq_left (by linarith), min_eq_left (by linarith)]
    · rw [min_eq_right under, add_assoc]
  · rw [← cast]
    ring
  · rw [← total]
    rcases le_total r.cap (g.level + r.feed g.clock first) with above | under
    · rw [min_eq_left above, max_eq_right (by linarith), max_eq_right (by linarith), max_eq_right (by linarith)]
      ring
    · rw [min_eq_right under, max_eq_left (by linarith), add_zero, add_assoc]

/-- Two gauges on one clock. What the cap cuts off the higher one closes the
gap to the lower one, as far as there is a gap to close. -/
theorem Gauge.advance_gap {r : Rule K} {now : K} {high low : Gauge K} (clocks : high.clock = low.clock)
    (owed : K) (gap : high.level - low.level = max 0 (owed - high.spill)) :
    (high.advance r now).level - (low.advance r now).level =
      max 0 (owed - (high.advance r now).spill) := by
  simp only [Gauge.advance, clocks]
  rcases le_total 0 (owed - high.spill) with ajar | closed
  · rw [max_eq_right ajar] at gap
    rcases le_total r.cap (high.level + r.feed low.clock now) with above | under
    · have spilt : max 0 (high.level + r.feed low.clock now - r.cap) = high.level + r.feed low.clock now - r.cap :=
        max_eq_right (by linarith)
      rw [min_eq_left above, spilt]
      rcases le_total r.cap (low.level + r.feed low.clock now) with both | one
      · rw [min_eq_left both, max_eq_left (by linarith)]
        ring
      · rw [min_eq_right one, max_eq_right (by linarith)]
        linarith
    · have spilt : max 0 (high.level + r.feed low.clock now - r.cap) = 0 := max_eq_left (by linarith)
      rw [min_eq_right under, min_eq_right (by linarith), spilt, add_zero, max_eq_right ajar]
      linarith
  · rw [max_eq_left closed] at gap
    have same : high.level = low.level := by linarith
    have spilt : (0 : K) ≤ max 0 (high.level + r.feed low.clock now - r.cap) := le_max_left _ _
    rw [same] at spilt ⊢
    rw [max_eq_left (by linarith)]
    ring

/-- The same with the gap of either sign: it never grows past what it was less
what the first gauge lost. -/
theorem Gauge.advance_gap_le {r : Rule K} {now : K} {first second : Gauge K}
    (clocks : first.clock = second.clock) :
    (first.advance r now).level - (second.advance r now).level ≤
      max 0 (first.level - second.level - ((first.advance r now).spill - first.spill)) := by
  simp only [Gauge.advance, clocks]
  rcases le_total r.cap (second.level + r.feed second.clock now) with above | under
  · rw [min_eq_left above]
    have level := min_le_left r.cap (first.level + r.feed second.clock now)
    have zero := le_max_left (0 : K) (first.level - second.level -
      (first.spill + max 0 (first.level + r.feed second.clock now - r.cap) - first.spill))
    linarith
  · rw [min_eq_right under]
    refine le_trans ?_ (le_max_right _ _)
    rcases le_total r.cap (first.level + r.feed second.clock now) with full | room
    · rw [min_eq_left full, max_eq_right (by linarith)]
      linarith
    · rw [min_eq_right room, max_eq_left (by linarith)]
      linarith

end Meter
