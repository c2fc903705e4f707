import Mathlib

namespace Dianemo

/-- A JavaScript number with exact finite part: rounding is not modelled, the
two infinities and `NaN` are. Negative zero is not told apart from zero. -/
inductive JsNumber where
  | fin (q : ℚ)
  | posInf
  | negInf
  | nan
  deriving DecidableEq

namespace JsNumber

instance : Coe ℚ JsNumber := ⟨fin⟩

instance (n : Nat) : OfNat JsNumber n := ⟨fin n⟩

/-- `Number.isFinite`. -/
def isFinite : JsNumber → Bool
  | fin _ => true
  | _ => false

/-- The finite part, `0` for the rest. Only read where finiteness is known. -/
def toRat : JsNumber → ℚ
  | fin q => q
  | _ => 0

def neg : JsNumber → JsNumber
  | fin q => fin (-q)
  | posInf => negInf
  | negInf => posInf
  | nan => nan

def add : JsNumber → JsNumber → JsNumber
  | fin a, fin b => fin (a + b)
  | nan, _ => nan
  | _, nan => nan
  | posInf, negInf => nan
  | negInf, posInf => nan
  | posInf, _ => posInf
  | _, posInf => posInf
  | negInf, _ => negInf
  | _, negInf => negInf

/-- The infinity with the sign of `q`, `NaN` for zero: `Infinity * q` and `q / 0`. -/
def infinityOf (q : ℚ) : JsNumber :=
  if 0 < q then posInf else if q < 0 then negInf else nan

def mul : JsNumber → JsNumber → JsNumber
  | fin a, fin b => fin (a * b)
  | nan, _ => nan
  | _, nan => nan
  | posInf, fin b => infinityOf b
  | fin a, posInf => infinityOf a
  | negInf, fin b => infinityOf (-b)
  | fin a, negInf => infinityOf (-a)
  | posInf, posInf => posInf
  | negInf, negInf => posInf
  | posInf, negInf => negInf
  | negInf, posInf => negInf

def div : JsNumber → JsNumber → JsNumber
  | fin a, fin b => if b = 0 then infinityOf a else fin (a / b)
  | nan, _ => nan
  | _, nan => nan
  | fin _, _ => fin 0
  | posInf, fin b => if b < 0 then negInf else posInf
  | negInf, fin b => if b < 0 then posInf else negInf
  | _, _ => nan

/-- `a < b`; every comparison with `NaN` is false. -/
def lt : JsNumber → JsNumber → Bool
  | fin a, fin b => decide (a < b)
  | nan, _ => false
  | _, nan => false
  | posInf, _ => false
  | _, negInf => false
  | _, _ => true

def le : JsNumber → JsNumber → Bool
  | fin a, fin b => decide (a ≤ b)
  | nan, _ => false
  | _, nan => false
  | negInf, _ => true
  | _, posInf => true
  | _, _ => false

instance : Neg JsNumber := ⟨neg⟩
instance : Add JsNumber := ⟨add⟩
instance : Sub JsNumber := ⟨fun a b => add a (neg b)⟩
instance : Mul JsNumber := ⟨mul⟩
instance : Div JsNumber := ⟨div⟩
instance : LT JsNumber := ⟨fun a b => lt a b = true⟩
instance : LE JsNumber := ⟨fun a b => le a b = true⟩
instance (a b : JsNumber) : Decidable (a < b) := inferInstanceAs (Decidable (lt a b = true))
instance (a b : JsNumber) : Decidable (a ≤ b) := inferInstanceAs (Decidable (le a b = true))

/-- `Math.min`: `NaN` if either argument is. -/
def min : JsNumber → JsNumber → JsNumber
  | nan, _ => nan
  | _, nan => nan
  | a, b => if le a b then a else b

/-- `Math.max`: `NaN` if either argument is. -/
def max : JsNumber → JsNumber → JsNumber
  | nan, _ => nan
  | _, nan => nan
  | a, b => if le a b then b else a

/-- `Math.floor`. -/
def floor : JsNumber → JsNumber
  | fin q => fin ⌊q⌋
  | x => x

/-- `Math.ceil`. -/
def ceil : JsNumber → JsNumber
  | fin q => fin ⌈q⌉
  | x => x

@[simp] theorem zero_eq : (0 : JsNumber) = fin 0 := congrArg fin Nat.cast_zero
@[simp] theorem one_eq : (1 : JsNumber) = fin 1 := congrArg fin Nat.cast_one
@[simp] theorem ofNat_eq (n : Nat) [n.AtLeastTwo] : (OfNat.ofNat n : JsNumber) = fin (OfNat.ofNat n) :=
  congrArg fin (Nat.cast_ofNat)

@[simp] theorem isFinite_fin (q : ℚ) : (fin q).isFinite = true := rfl
@[simp] theorem toRat_fin (q : ℚ) : (fin q).toRat = q := rfl
@[simp] theorem neg_fin (q : ℚ) : -fin q = fin (-q) := rfl
@[simp] theorem add_fin (a b : ℚ) : fin a + fin b = fin (a + b) := rfl
@[simp] theorem mul_fin (a b : ℚ) : fin a * fin b = fin (a * b) := rfl
@[simp] theorem floor_fin (q : ℚ) : (fin q).floor = fin ⌊q⌋ := rfl
@[simp] theorem ceil_fin (q : ℚ) : (fin q).ceil = fin ⌈q⌉ := rfl

@[simp] theorem sub_fin (a b : ℚ) : fin a - fin b = fin (a - b) := by
  change fin (a + -b) = fin (a - b)
  rw [sub_eq_add_neg]

@[simp] theorem div_fin {a b : ℚ} (nonzero : b ≠ 0) : fin a / fin b = fin (a / b) := by
  change (if b = 0 then infinityOf a else fin (a / b)) = fin (a / b)
  rw [if_neg nonzero]

@[simp] theorem fin_lt_fin {a b : ℚ} : fin a < fin b ↔ a < b := by
  change decide (a < b) = true ↔ a < b
  exact decide_eq_true_iff

@[simp] theorem fin_le_fin {a b : ℚ} : fin a ≤ fin b ↔ a ≤ b := by
  change decide (a ≤ b) = true ↔ a ≤ b
  exact decide_eq_true_iff

@[simp] theorem min_fin (a b : ℚ) : (fin a).min (fin b) = fin (Min.min a b) := by
  change (if decide (a ≤ b) = true then fin a else fin b) = fin (Min.min a b)
  simp only [decide_eq_true_eq, min_def, apply_ite fin]

@[simp] theorem max_fin (a b : ℚ) : (fin a).max (fin b) = fin (Max.max a b) := by
  change (if decide (a ≤ b) = true then fin b else fin a) = fin (Max.max a b)
  simp only [decide_eq_true_eq, max_def, apply_ite fin]

theorem isFinite_iff {x : JsNumber} : x.isFinite = true ↔ ∃ q, x = fin q := by
  cases x <;> simp [isFinite]

theorem fin_toRat {x : JsNumber} (finite : x.isFinite = true) : fin x.toRat = x := by
  obtain ⟨q, rfl⟩ := isFinite_iff.mp finite
  rfl

end JsNumber

end Dianemo
