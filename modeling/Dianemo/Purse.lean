import Dianemo.Calls
import Dianemo.Library.Meter

namespace Dianemo

open JsNumber Meter

/-- A usable configuration in exact numbers. -/
structure Rate where
  maxTokens : ℚ
  tokensToAdd : ℚ
  interval : ℚ
  maxTokens_pos : 0 < maxTokens
  tokensToAdd_pos : 0 < tokensToAdd

namespace Rate

def config (r : Rate) : TokenBucketConfig := ⟨r.maxTokens, r.tokensToAdd, r.interval⟩

def rule (r : Rate) : Rule ℚ := ⟨r.maxTokens, r.tokensToAdd, r.interval⟩

theorem usable (r : Rate) {cost : ℚ} (nonneg : 0 ≤ cost) : unusableBudget (fin cost) r.config = none :=
  unusableBudget_none.mpr ⟨r.maxTokens, r.interval, cost, rfl, r.maxTokens_pos, rfl, rfl, nonneg, by
    rw [zero_eq]
    exact fin_lt_fin.mpr r.tokensToAdd_pos⟩

end Rate

theorem balanceTolerance_pos : 0 < balanceTolerance := by norm_num [balanceTolerance]

/-- The four counters in exact numbers: the balance, the instant it has been
refilled to and the refill discarded so far, and how often the bucket has filled. -/
structure Level where
  gauge : Gauge ℚ
  fills : ℚ

namespace Level

def state (l : Level) : BucketState := ⟨l.gauge.level, l.gauge.clock, l.gauge.spill, l.fills⟩

/-- A bucket nothing has been taken from. -/
def full (r : Rate) (now : ℚ) : Level := ⟨⟨r.maxTokens, now, 0⟩, 0⟩

def fillsAt (r : Rate) (now : ℚ) (l : Level) : Prop :=
  r.maxTokens < l.gauge.level + r.rule.feed l.gauge.clock now ∨
    (l.gauge.level < r.maxTokens ∧ r.maxTokens ≤ l.gauge.level + r.rule.feed l.gauge.clock now)

instance (r : Rate) (now : ℚ) (l : Level) : Decidable (l.fillsAt r now) :=
  inferInstanceAs (Decidable (_ ∨ _))

def refill (r : Rate) (now : ℚ) (l : Level) : Level where
  gauge := l.gauge.advance r.rule now
  fills := if l.fillsAt r now then l.fills + 1 else l.fills

def spend (cost : ℚ) (l : Level) : Level := { l with gauge := { l.gauge with level := l.gauge.level - cost } }

end Level

theorem intervalsElapsed_fin (r : Rate) (clock now : ℚ) :
    intervalsElapsed (fin clock) r.config.interval now = fin (r.rule.periods clock now) := by
  simp only [intervalsElapsed, Rate.config, zero_eq, sub_fin, fin_lt_fin]
  by_cases positive : 0 < r.interval
  · have periods : r.rule.periods clock now = ⌊(now - clock) / r.interval⌋₊ := if_pos positive
    rw [periods]
    by_cases elapsed : 0 < now - clock
    · have quotient : 0 ≤ (now - clock) / r.interval := div_nonneg elapsed.le positive.le
      have cast : ((⌊(now - clock) / r.interval⌋₊ : ℕ) : ℚ) = (⌊(now - clock) / r.interval⌋ : ℚ) := by
        exact_mod_cast Int.natCast_floor_eq_floor quotient
      rw [if_pos ⟨elapsed, positive⟩, div_fin positive.ne', floor_fin, cast]
    · have quotient : (now - clock) / r.interval ≤ 0 :=
        div_nonpos_of_nonpos_of_nonneg (not_lt.mp elapsed) positive.le
      rw [if_neg (fun both => elapsed both.1), Nat.floor_of_nonpos quotient, Nat.cast_zero]
  · have periods : r.rule.periods clock now = 0 := if_neg positive
    rw [if_neg (fun both => positive both.2), periods, Nat.cast_zero]

/-- The source's refill is the gauge's advance. -/
theorem Level.refill_state (r : Rate) (now : ℚ) (l : Level) :
    l.state.refill r.config now = (l.refill r now).state := by
  have counted := intervalsElapsed_fin r l.gauge.clock now
  have nonneg : (0 : ℚ) ≤ r.rule.periods l.gauge.clock now := Nat.cast_nonneg _
  have tokens : (if 0 < (r.rule.periods l.gauge.clock now : ℚ) then
      fin (l.gauge.level + r.rule.periods l.gauge.clock now * r.tokensToAdd) else fin l.gauge.level) =
      fin (l.gauge.level + r.rule.feed l.gauge.clock now) := by
    split
    · rfl
    · rename_i none_
      have zero : (r.rule.periods l.gauge.clock now : ℚ) = 0 := le_antisymm (not_lt.mp none_) nonneg
      rw [Rule.feed, zero, zero_mul, add_zero]
  have clock : (if 0 < (r.rule.periods l.gauge.clock now : ℚ) then
      fin (l.gauge.clock + r.rule.periods l.gauge.clock now * r.interval) else fin l.gauge.clock) =
      fin (l.gauge.clock + r.rule.periods l.gauge.clock now * r.interval) := by
    split
    · rfl
    · rename_i none_
      have zero : (r.rule.periods l.gauge.clock now : ℚ) = 0 := le_antisymm (not_lt.mp none_) nonneg
      rw [zero, zero_mul, add_zero]
  simp only [BucketState.refill, Level.state, counted, zero_eq, one_eq]
  simp only [Rate.config, fin_lt_fin, mul_fin, add_fin, tokens, clock, fin_le_fin, sub_fin]
  change _ = (⟨fin (Min.min r.maxTokens (l.gauge.level + r.rule.feed l.gauge.clock now)),
    fin (l.gauge.clock + r.rule.periods l.gauge.clock now * r.interval),
    fin (l.gauge.spill + Max.max 0 (l.gauge.level + r.rule.feed l.gauge.clock now - r.maxTokens)),
    fin (if l.fillsAt r now then l.fills + 1 else l.fills)⟩ : BucketState)
  by_cases spills : r.maxTokens < l.gauge.level + r.rule.feed l.gauge.clock now
  · have fills : l.fillsAt r now := Or.inl spills
    rw [if_pos spills, if_pos fills, min_eq_left spills.le, max_eq_right (by linarith)]
  · have under := not_lt.mp spills
    rw [if_neg spills, min_eq_right under, max_eq_left (by linarith), add_zero]
    by_cases reaches : l.gauge.level < r.maxTokens ∧ r.maxTokens ≤ l.gauge.level + r.rule.feed l.gauge.clock now
    · have fills : l.fillsAt r now := Or.inr reaches
      rw [if_pos (by simpa using reaches), if_pos fills]
    · have fills : ¬ l.fillsAt r now := fun either => either.elim spills reaches
      rw [if_neg (by simpa using reaches), if_neg fills]

theorem Rule.periods_self (r : Rule ℚ) (now : ℚ) : r.periods now now = 0 := by
  unfold Rule.periods
  split <;> simp

theorem Level.full_refill (r : Rate) (now : ℚ) : (Level.full r now).refill r now = Level.full r now := by
  have none_ : r.rule.periods now now = 0 := Rule.periods_self r.rule now
  have feed : r.rule.feed now now = 0 := by rw [Rule.feed, none_, Nat.cast_zero, zero_mul]
  have cap : r.rule.cap = r.maxTokens := rfl
  have fills : ¬ (Level.full r now).fillsAt r now := by
    simp only [Level.fillsAt, Level.full, feed, add_zero, lt_irrefl, false_and, or_self, not_false_eq_true]
  simp only [Level.refill, if_neg fills]
  simp only [Level.full, Gauge.advance, feed, none_, cap, add_zero, Nat.cast_zero, zero_mul, min_self, sub_self,
    max_self]

/-- A bucket in exact numbers. -/
structure Purse where
  level : Level
  generation : ℚ
  forgiven : ℚ
  epoch : Option ℕ
  expiresAt : ℚ

def Purse.bucket (p : Purse) : Bucket := ⟨p.level.state, p.generation, p.forgiven, p.epoch, p.expiresAt⟩

/-- A claim mark in exact numbers. -/
structure Note where
  claimed : ℚ
  overflow : ℚ
  fills : ℚ
  generation : ℚ
  forgiven : ℚ
  epoch : ℕ
  expiresAt : ℚ

def Note.mark (n : Note) : Mark := ⟨n.claimed, n.overflow, n.fills, n.generation, n.forgiven, n.epoch, n.expiresAt⟩

/-- An account in exact numbers. -/
structure Book where
  purse : Option Purse
  notes : String → Option Note
  epochs : ℕ

/-- What a settlement takes, what `maxDebt` kept it from taking, and the
bucket's forgiven total after it. -/
structure Correction where
  applied : ℚ
  unapplied : ℚ
  forgiven : ℚ

/-- The bucket is not the one the note was made on, or was overwritten since. -/
def Note.Gone (n : Note) (p : Purse) (l : Level) : Prop :=
  p.epoch ≠ some n.epoch ∨ p.generation ≠ n.generation ∨ l.gauge.spill < n.overflow ∨ l.fills < n.fills

instance (n : Note) (p : Purse) (l : Level) : Decidable (n.Gone p l) := inferInstanceAs (Decidable (_ ∨ _))

def correction (r : Rate) (p : Purse) (l : Level) (n : Note) (actual debt : ℚ) : Correction :=
  if n.Gone p l then ⟨0, 0, p.forgiven⟩
  else if 0 < actual - n.claimed then
    let used := Min.min (actual - n.claimed)
      (Max.max 0 (l.gauge.spill - n.overflow - (p.forgiven - n.forgiven)))
    let applied := Min.min (actual - n.claimed - used) (Max.max 0 (l.gauge.level + debt))
    ⟨applied, actual - n.claimed - used - applied, p.forgiven + used⟩
  else if actual - n.claimed < 0 ∧ l.fills = n.fills then
    ⟨-Min.min (-(actual - n.claimed)) (Max.max 0 (r.maxTokens - l.gauge.level)), 0, p.forgiven⟩
  else ⟨0, 0, p.forgiven⟩

namespace Book

def account (b : Book) : Account where
  bucket := b.purse.map Purse.bucket
  marks id := (b.notes id).map Note.mark
  epochs := b.epochs

/-- The bucket refilled to `now`, full if there is none. -/
def level (b : Book) (r : Rate) (now : ℚ) : Level := b.purse.elim (Level.full r now) fun p => p.level.refill r now

def generation (b : Book) : ℚ := b.purse.elim 0 Purse.generation

def forgiven (b : Book) : ℚ := b.purse.elim 0 Purse.forgiven

def epoch (b : Book) : Option ℕ := b.purse.bind Purse.epoch

def asOf (b : Book) (now : ℚ) : Book where
  purse := b.purse.filter fun p => decide (now < p.expiresAt)
  notes id := (b.notes id).filter fun n => decide (now < n.expiresAt)
  epochs := b.epochs

def write (b : Book) (l : Level) (ttl now : ℚ) : Book :=
  { b with purse := some ⟨l, b.generation, b.forgiven, b.epoch, now + ttl * 1000⟩ }

def mark (b : Book) (claim : String × ℚ) (cost : ℚ) (l : Level) (epoch : ℕ) (now : ℚ) : Book :=
  let taken := b.epoch.getD epoch
  { purse := b.purse.map fun p => { p with epoch := some taken }
    notes := Function.update b.notes claim.1 (some
      ⟨cost, l.gauge.spill, l.fills, b.generation, b.forgiven, taken, now + claim.2 * 1000⟩)
    epochs := if b.epoch.isSome then b.epochs else epoch }

def spend (b : Book) (l : Level) (cost ttl : ℚ) (claim : Option (String × ℚ)) (epoch : ℕ) (now : ℚ) : Book :=
  match claim with
  | none => b.write (l.spend cost) ttl now
  | some claim => (b.write (l.spend cost) ttl now).mark claim cost l epoch now

def overwrite (b : Book) (tokens ttl now : ℚ) : Book :=
  let level : Level :=
    ⟨⟨tokens, now, b.purse.elim 0 fun p => p.level.gauge.spill⟩, b.purse.elim 0 fun p => p.level.fills⟩
  { b with purse := some ⟨level, b.generation + 1, b.forgiven, b.epoch, now + ttl * 1000⟩ }

def credit (b : Book) (cost maxTokens : ℚ) : Book :=
  let credited := b.purse.map fun p => { p with level := { p.level with gauge := { p.level.gauge with
    level := Min.min maxTokens (p.level.gauge.level + cost) } } }
  { b with purse := credited }

/-- The consumed note's correction, once there is a bucket to correct. -/
def correct (b : Book) (r : Rate) (n : Note) (actual debt now : ℚ) : Book :=
  match b.purse with
  | none => b
  | some p =>
    let l := p.level.refill r now
    let c := correction r p l n actual debt
    let corrected : Purse :=
      ⟨l.spend c.applied, p.generation, c.forgiven, p.epoch, now + (bucketTtl 86400 r.config).toRat * 1000⟩
    { b with purse := some corrected }

def settle (b : Book) (r : Rate) (id : String) (actual debt now : ℚ) : Book :=
  match b.notes id with
  | none => b
  | some n => correct { b with notes := Function.update b.notes id none } r n actual debt now

end Book

end Dianemo
