import Mathlib

namespace Packing

/-- A digit of a band `width` wide, packed under `high`. -/
def pack (width high low : ℤ) : ℤ := high * width + low

variable {width height high low high' low' : ℤ}

theorem pack_lt_of_high (fits : low ∈ Set.Ico 0 width) (fits' : low' ∈ Set.Ico 0 width) (below : high < high') :
    pack width high low < pack width high' low' := by
  have wide : 0 ≤ width := (fits.1.trans_lt fits.2).le
  calc pack width high low < high * width + width := by
        rw [pack]
        exact Int.add_lt_add_left fits.2 _
    _ = (high + 1) * width := by ring
    _ ≤ high' * width := mul_le_mul_of_nonneg_right below wide
    _ ≤ pack width high' low' := le_add_of_nonneg_right fits'.1

/-- Numbers packed in one band compare as their digits do, the high one first. -/
theorem pack_lt_pack (fits : low ∈ Set.Ico 0 width) (fits' : low' ∈ Set.Ico 0 width) :
    pack width high low < pack width high' low' ↔ high < high' ∨ high = high' ∧ low < low' := by
  rcases lt_trichotomy high high' with below | same | above
  · exact iff_of_true (pack_lt_of_high fits fits' below) (.inl below)
  · subst same
    have digits : pack width high low < pack width high low' ↔ low < low' := by
      rw [pack, pack]
      omega
    rw [digits]
    exact ⟨fun lt => .inr ⟨rfl, lt⟩, fun either => either.elim (fun lt => absurd lt (lt_irrefl high)) And.right⟩
  · have after := pack_lt_of_high fits' fits above
    refine iff_of_false after.not_gt ?_
    rintro (below | ⟨same, -⟩)
    · exact below.not_gt above
    · exact above.ne' same

theorem pack_inj (fits : low ∈ Set.Ico 0 width) (fits' : low' ∈ Set.Ico 0 width) :
    pack width high low = pack width high' low' ↔ high = high' ∧ low = low' := by
  constructor
  · intro same
    have least : ¬ (high < high' ∨ high = high' ∧ low < low') := fun lt =>
      same.not_lt ((pack_lt_pack fits fits').mpr lt)
    have most : ¬ (high' < high ∨ high' = high ∧ low' < low) := fun lt =>
      same.not_gt ((pack_lt_pack fits' fits).mpr lt)
    omega
  · rintro ⟨rfl, rfl⟩
    rfl

theorem pack_mem (tall : high ∈ Set.Ico 0 height) (fits : low ∈ Set.Ico 0 width) :
    pack width high low ∈ Set.Ico 0 (height * width) := by
  have wide : 0 ≤ width := (fits.1.trans_lt fits.2).le
  refine ⟨add_nonneg (mul_nonneg tall.1 wide) fits.1, ?_⟩
  calc pack width high low < high * width + width := by
        rw [pack]
        exact Int.add_lt_add_left fits.2 _
    _ = (high + 1) * width := by ring
    _ ≤ height * width := mul_le_mul_of_nonneg_right tall.2 wide

end Packing
