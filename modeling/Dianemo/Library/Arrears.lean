import Dianemo.Library.Meter

namespace Meter

variable {K : Type*} [Field K] [LinearOrder K] [IsStrictOrderedRing K]

/-- An amount still to be taken from a gauge, and what the cap has cut off
since it was incurred that no other amount has been excused by. -/
structure Debt (K : Type*) where
  owed : K
  credit : K

namespace Debt

/-- The cap cuts off so much more, or so much less is left of what it cut off. -/
def after (spilt : K) (d : Debt K) : Debt K := { d with credit := d.credit + spilt }

/-- No more credit than that. -/
def capped (most : K) (d : Debt K) : Debt K := { d with credit := min d.credit most }

end Debt

/-- The sum of the debts, oldest first. -/
def owing (debts : List (Debt K)) : K := (debts.map Debt.owed).sum

/-- How far above a gauge that had taken every amount at once one may stand that has yet to
take them: from the debt on that leaves most, whatever its credit excuses. -/
def arrears : List (Debt K) → K
  | [] => 0
  | d :: rest => max (d.owed + owing rest - d.credit) (arrears rest)

/-- Later debts have no more credit than earlier ones, and none has less than nothing. -/
structure Aged (debts : List (Debt K)) : Prop where
  order : debts.Pairwise fun early late => late.credit ≤ early.credit
  credit : ∀ d ∈ debts, 0 ≤ d.credit

omit [LinearOrder K] [IsStrictOrderedRing K] in
theorem owing_append (early late : List (Debt K)) : owing (early ++ late) = owing early + owing late := by
  simp [owing]

omit [LinearOrder K] [IsStrictOrderedRing K] in
@[simp] theorem owing_after (debts : List (Debt K)) (spilt : K) :
    owing (debts.map (Debt.after spilt)) = owing debts := by
  simp [owing, Debt.after, Function.comp_def]

omit [IsStrictOrderedRing K] in
@[simp] theorem owing_capped (debts : List (Debt K)) (most : K) :
    owing (debts.map (Debt.capped most)) = owing debts := by
  simp [owing, Debt.capped, Function.comp_def]

omit [IsStrictOrderedRing K] in
theorem arrears_nonneg (debts : List (Debt K)) : 0 ≤ arrears debts := by
  induction debts with
  | nil => exact le_rfl
  | cons d rest ih => exact le_max_of_le_right ih

/-- What the cap cuts off is taken off the arrears. -/
theorem arrears_after (debts : List (Debt K)) {spilt : K} (nonneg : 0 ≤ spilt) :
    arrears debts - spilt ≤ arrears (debts.map (Debt.after spilt)) := by
  induction debts with
  | nil => simpa [arrears] using nonneg
  | cons d rest ih =>
    rw [List.map_cons, arrears, arrears, owing_after]
    have first : d.owed + owing rest - d.credit - spilt = (d.after spilt).owed +
        owing rest - (d.after spilt).credit := by
      simp only [Debt.after]
      ring
    rcases max_choice (d.owed + owing rest - d.credit) (arrears rest) with here | there
    · rw [here, first]
      exact le_max_left _ _
    · rw [there]
      exact le_max_of_le_right ih

/-- A new debt adds to the arrears what is owed. -/
theorem arrears_incur (debts : List (Debt K)) (owed : K) :
    arrears debts + owed ≤ arrears (debts ++ [⟨owed, 0⟩]) := by
  induction debts with
  | nil => simp [arrears, owing]
  | cons d rest ih =>
    rw [List.cons_append, arrears, arrears, owing_append]
    have last : owing [(⟨owed, 0⟩ : Debt K)] = owed := by simp [owing]
    rw [last]
    rcases max_choice (d.owed + owing rest - d.credit) (arrears rest) with here | there
    · rw [here]
      refine le_max_of_le_left ?_
      linarith
    · rw [there]
      exact le_max_of_le_right ih

theorem arrears_capped (debts : List (Debt K)) (most : K) :
    arrears debts ≤ arrears (debts.map (Debt.capped most)) := by
  induction debts with
  | nil => exact le_rfl
  | cons d rest ih =>
    rw [List.map_cons, arrears, arrears, owing_capped]
    refine max_le_max ?_ ih
    have less : (d.capped most).credit ≤ d.credit := min_le_left _ _
    have same : (d.capped most).owed = d.owed := rfl
    rw [same]
    linarith

/-- What the later debts owe is in the arrears once no credit of theirs exceeds what is left. -/
theorem owing_le_arrears (debts : List (Debt K)) {left : K} (nonneg : 0 ≤ left) :
    owing debts - left ≤ arrears (debts.map (Debt.capped left)) := by
  cases debts with
  | nil => simpa [arrears, owing] using nonneg
  | cons d rest =>
    rw [List.map_cons, arrears, owing_capped]
    refine le_max_of_le_left ?_
    have less : (d.capped left).credit ≤ left := min_le_right _ _
    have same : (d.capped left).owed = d.owed := rfl
    have total : owing (d :: rest) = d.owed + owing rest := by simp [owing]
    rw [same, total]
    linarith

/-- A debt is settled: its credit excuses part of it, and the rest is taken. What excused it
excuses no earlier debt again, nor a later one beyond what it leaves. -/
theorem arrears_settle (early late : List (Debt K)) {d : Debt K} {used : K} (owed : used ≤ d.owed)
    (credit : used ≤ d.credit) :
    arrears (early ++ d :: late) - (d.owed - used) ≤
      arrears (early.map (Debt.after (-used)) ++ late.map (Debt.capped (d.credit - used))) := by
  induction early with
  | nil =>
    rw [List.nil_append, List.map_nil, List.nil_append, arrears]
    rcases max_choice (d.owed + owing late - d.credit) (arrears late) with here | there
    · rw [here]
      refine le_trans ?_ (owing_le_arrears late (sub_nonneg.mpr credit))
      linarith
    · rw [there]
      refine le_trans ?_ (arrears_capped late (d.credit - used))
      linarith
  | cons e rest ih =>
    rw [List.cons_append, List.map_cons, List.cons_append, arrears, arrears]
    have total : owing (rest ++ d :: late) = owing rest + d.owed + owing late := by
      rw [owing_append]
      simp [owing, add_assoc]
    rcases max_choice (e.owed + owing (rest ++ d :: late) - e.credit)
      (arrears (rest ++ d :: late)) with here | there
    · rw [here, total]
      refine le_max_of_le_left ?_
      rw [owing_append, owing_after, owing_capped]
      have moved : (e.after (-used)).credit = e.credit - used := (sub_eq_add_neg _ _).symm
      have same : (e.after (-used)).owed = e.owed := rfl
      rw [moved, same]
      linarith
    · rw [there]
      exact le_max_of_le_right ih

namespace Aged

omit [IsStrictOrderedRing K] in
theorem nil : Aged ([] : List (Debt K)) := ⟨List.Pairwise.nil, by simp⟩

theorem after {debts : List (Debt K)} (aged : Aged debts) {spilt : K} (nonneg : 0 ≤ spilt) :
    Aged (debts.map (Debt.after spilt)) := by
  refine ⟨List.pairwise_map.mpr (aged.order.imp fun order => add_le_add_left order spilt), ?_⟩
  intro d member
  obtain ⟨e, before, rfl⟩ := List.mem_map.mp member
  exact add_nonneg (aged.credit e before) nonneg

omit [IsStrictOrderedRing K] in
theorem incur {debts : List (Debt K)} (aged : Aged debts) (owed : K) : Aged (debts ++ [⟨owed, 0⟩]) := by
  refine ⟨List.pairwise_append.mpr ⟨aged.order, List.pairwise_singleton _ _, ?_⟩, ?_⟩
  · intro d member e last
    cases List.mem_singleton.mp last
    exact aged.credit d member
  · intro d member
    rcases List.mem_append.mp member with before | last
    · exact aged.credit d before
    · cases List.mem_singleton.mp last
      exact le_rfl

theorem settle {early late : List (Debt K)} {d : Debt K} (aged : Aged (early ++ d :: late)) {used : K}
    (credit : used ≤ d.credit) :
    Aged (early.map (Debt.after (-used)) ++ late.map (Debt.capped (d.credit - used))) := by
  obtain ⟨before, rest, across⟩ := List.pairwise_append.mp aged.order
  obtain ⟨next, behind⟩ := List.pairwise_cons.mp rest
  refine ⟨List.pairwise_append.mpr ⟨?_, ?_, ?_⟩, ?_⟩
  · exact List.pairwise_map.mpr (before.imp fun order => add_le_add_left order (-used))
  · exact List.pairwise_map.mpr (behind.imp fun order => min_le_min_right _ order)
  · intro e member f later
    obtain ⟨e, old, rfl⟩ := List.mem_map.mp member
    obtain ⟨f, -, rfl⟩ := List.mem_map.mp later
    have order := across e old d List.mem_cons_self
    have most : (f.capped (d.credit - used)).credit ≤ d.credit - used := min_le_right _ _
    have moved : (e.after (-used)).credit = e.credit - used := (sub_eq_add_neg _ _).symm
    rw [moved]
    linarith
  · intro e member
    rcases List.mem_append.mp member with old | later
    · obtain ⟨e, held, rfl⟩ := List.mem_map.mp old
      have order := across e held d List.mem_cons_self
      have moved : (e.after (-used)).credit = e.credit - used := (sub_eq_add_neg _ _).symm
      rw [moved]
      linarith
    · obtain ⟨f, behind, rfl⟩ := List.mem_map.mp later
      have held := aged.credit f (List.mem_append_right _ (List.mem_cons_of_mem _ behind))
      exact le_min held (sub_nonneg.mpr credit)

end Aged

/-- An amount taken. -/
def Gauge.take (amount : K) (g : Gauge K) : Gauge K := { g with level := g.level - amount }

/-- A gauge brought up to date stays so when something is taken from it. -/
theorem Gauge.advance_taken [FloorRing K] {r : Rule K} (gain : 0 ≤ r.gain) {now amount : K}
    (nonneg : 0 ≤ amount) (g : Gauge K) :
    ((g.advance r now).take amount).advance r now = (g.advance r now).take amount := by
  have again := Gauge.advance_advance gain (le_refl now) g
  have clock := congrArg Gauge.clock again
  have spill := congrArg Gauge.spill again
  have level : (g.advance r now).level ≤ r.cap := Gauge.advance_level_le
  have none_ : r.periods (g.advance r now).clock now = 0 := by
    have counted := r.periods_add g.clock (le_refl now)
    have same : (g.advance r now).clock = g.clock + r.periods g.clock now * r.period := rfl
    rw [same]
    omega
  have feed : r.feed (g.advance r now).clock now = 0 := by rw [Rule.feed, none_, Nat.cast_zero, zero_mul]
  have held : ((g.advance r now).take amount).clock = (g.advance r now).clock := rfl
  have taken : ((g.advance r now).take amount).level = (g.advance r now).level - amount := rfl
  rw [Gauge.advance, held, taken, feed, none_, add_zero, Nat.cast_zero, zero_mul, add_zero]
  rw [min_eq_right (by linarith), max_eq_left (by linarith), add_zero]
  rfl

/-- Two gauges on one clock, the higher one above the other by what is owed it less what the cap
has cut off it. -/
structure Ahead (owed : K) (high low : Gauge K) : Prop where
  clocks : high.clock = low.clock
  gap : high.level - low.level = max 0 (owed - high.spill)

namespace Ahead

variable {owed amount : K} {high low : Gauge K}

theorem advance [FloorRing K] (ahead : Ahead owed high low) (r : Rule K) (now : K) :
    Ahead owed (high.advance r now) (low.advance r now) where
  clocks := by simp only [Gauge.advance, ahead.clocks]
  gap := Gauge.advance_gap ahead.clocks owed ahead.gap

omit [IsStrictOrderedRing K] in
theorem take (ahead : Ahead owed high low) (amount : K) : Ahead owed (high.take amount) (low.take amount) where
  clocks := ahead.clocks
  gap := by
    have gap := ahead.gap
    simp only [Gauge.take]
    rw [sub_sub_sub_cancel_right]
    exact gap

/-- One of two equal gauges takes more than the other. -/
theorem of_take (g : Gauge K) {less more : K} (order : less ≤ more) :
    Ahead (g.spill + (more - less)) (g.take less) (g.take more) where
  clocks := rfl
  gap := by
    have same : (g.take less).spill = g.spill := rfl
    rw [same, add_sub_cancel_left, max_eq_right (sub_nonneg.mpr order)]
    simp only [Gauge.take]
    ring

end Ahead

/-- A gauge with debts still to take is above one that took them at once by no more than the
arrears, and what was never taken. -/
structure Behind (debts : List (Debt K)) (excess : K) (real ideal : Gauge K) : Prop where
  clocks : real.clock = ideal.clock
  aged : Aged debts
  nonneg : 0 ≤ excess
  gap : real.level ≤ ideal.level + arrears debts + excess

namespace Behind

variable {debts early late : List (Debt K)} {excess : K} {real ideal : Gauge K}

theorem advance [FloorRing K] (behind : Behind debts excess real ideal) (r : Rule K) (now : K) :
    Behind (debts.map (Debt.after ((real.advance r now).spill - real.spill))) excess (real.advance r now)
      (ideal.advance r now) where
  clocks := by simp only [Gauge.advance, behind.clocks]
  aged := behind.aged.after (sub_nonneg.mpr Gauge.spill_le_advance)
  nonneg := behind.nonneg
  gap := by
    have spilt : 0 ≤ (real.advance r now).spill - real.spill := sub_nonneg.mpr Gauge.spill_le_advance
    have closes : (real.advance r now).level - (ideal.advance r now).level ≤
        max 0 (real.level - ideal.level - ((real.advance r now).spill - real.spill)) :=
          Gauge.advance_gap_le behind.clocks
    have less := arrears_after debts spilt
    have some_ := arrears_nonneg (debts.map (Debt.after ((real.advance r now).spill - real.spill)))
    have gap := behind.gap
    have nonneg := behind.nonneg
    rcases max_choice 0 (real.level - ideal.level - ((real.advance r now).spill - real.spill)) with none_ | rest
    · rw [none_] at closes
      linarith
    · rw [rest] at closes
      linarith

theorem take (behind : Behind debts excess real ideal) (amount : K) :
    Behind debts excess (real.take amount) (ideal.take amount) where
  clocks := behind.clocks
  aged := behind.aged
  nonneg := behind.nonneg
  gap := by
    have gap := behind.gap
    simp only [Gauge.take]
    linarith

/-- Part of an amount is taken, and the rest is to follow. -/
theorem incur (behind : Behind debts excess real ideal) (claimed owed : K) :
    Behind (debts ++ [⟨owed, 0⟩]) excess (real.take claimed) (ideal.take (claimed + owed)) where
  clocks := behind.clocks
  aged := behind.aged.incur owed
  nonneg := behind.nonneg
  gap := by
    have gap := behind.gap
    have more := arrears_incur debts owed
    simp only [Gauge.take]
    linarith

/-- What a debt's credit does not excuse is taken, or never is. -/
theorem settle {d : Debt K} (behind : Behind (early ++ d :: late) excess real ideal) {used applied unapplied : K}
    (owed : used ≤ d.owed) (credit : used ≤ d.credit) (whole : applied + unapplied = d.owed - used)
    (unpaid : 0 ≤ unapplied) :
    Behind (early.map (Debt.after (-used)) ++ late.map (Debt.capped (d.credit - used)))
      (excess + unapplied) (real.take applied)
      ideal where
  clocks := behind.clocks
  aged := behind.aged.settle credit
  nonneg := add_nonneg behind.nonneg unpaid
  gap := by
    have gap := behind.gap
    have settled := arrears_settle early late owed credit
    simp only [Gauge.take]
    linarith

omit [IsStrictOrderedRing K] in
theorem clear (behind : Behind [] excess real ideal) : real.level ≤ ideal.level + excess := by
  simpa [arrears] using behind.gap

end Behind

end Meter
