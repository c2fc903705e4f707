import Dianemo.Store
import Dianemo.Library.Precedence

namespace Dianemo

section Bytes

theorem compareEncoded_swap (x y : List UInt8) : compareEncoded y x = -compareEncoded x y := by
  induction x generalizing y with
  | nil => cases y <;> simp [compareEncoded]
  | cons b rest ih =>
    cases y with
    | nil => simp [compareEncoded]
    | cons c rest' =>
      by_cases same : b = c
      · simp [compareEncoded, same, ih]
      · rw [compareEncoded, compareEncoded, if_neg same, if_neg (Ne.symm same)]
        omega

theorem compareEncoded_append (common x y : List UInt8) :
    compareEncoded (common ++ x) (common ++ y) = compareEncoded x y := by
  induction common with
  | nil => rfl
  | cons b rest ih => simpa [compareEncoded] using ih

theorem compareEncoded_trans {x y z : List UInt8} (first : compareEncoded x y ≤ 0)
    (second : compareEncoded y z ≤ 0) : compareEncoded x z ≤ 0 := by
  induction x generalizing y z with
  | nil =>
    cases z with
    | nil => simp [compareEncoded]
    | cons c zs =>
      simp only [compareEncoded, List.length_nil, List.length_cons]
      omega
  | cons a xs ih =>
    cases y with
    | nil =>
      simp [compareEncoded] at first
      omega
    | cons b ys =>
      cases z with
      | nil =>
        simp [compareEncoded] at second
        omega
      | cons c zs =>
        have inj : ∀ m n : UInt8, m.toNat = n.toNat → m = n := fun _ _ => UInt8.toNat_inj.mp
        rw [compareEncoded] at first second ⊢
        split at first
        · rename_i same
          subst same
          split
          · rename_i same
            subst same
            rw [if_pos rfl] at second
            exact ih first second
          · rename_i other
            rwa [if_neg other] at second
        · rename_i other
          split at second
          · rename_i same
            subst same
            rwa [if_neg other]
          · rename_i other'
            have lt : a.toNat ≠ b.toNat := fun same => other (inj _ _ same)
            have lt' : b.toNat ≠ c.toNat := fun same => other' (inj _ _ same)
            split
            · rename_i same
              subst same
              omega
            · omega

theorem compareEncoded_head {m n : Nat} (lt : m < n) (small : n < 256) (x y : List UInt8) :
    compareEncoded (UInt8.ofNat m :: x) (UInt8.ofNat n :: y) < 0 := by
  have less : (UInt8.ofNat m).toNat < (UInt8.ofNat n).toNat := by
    simp only [UInt8.toNat_ofNat']
    omega
  have apart : UInt8.ofNat m ≠ UInt8.ofNat n := fun same => by simp [same] at less
  rw [compareEncoded, if_neg apart]
  omega

theorem compareEncoded_cons (b : UInt8) (x y : List UInt8) :
    compareEncoded (b :: x) (b :: y) = compareEncoded x y :=
  compareEncoded_append [b] x y

/-- UTF-8 keeps the order of code points. -/
theorem encodePoint_lt {m n : Nat} (lt : m < n) (plane : n < 0x10000) (x y : List UInt8) :
    compareEncoded (encodePoint m ++ x) (encodePoint n ++ y) < 0 := by
  unfold encodePoint
  by_cases one : n < 0x80
  · rw [if_pos (by omega : m < 0x80), if_pos one]
    exact compareEncoded_head lt (by omega) _ _
  rw [if_neg one]
  by_cases two : n < 0x800
  · rw [if_pos two]
    by_cases low : m < 0x80
    · rw [if_pos low]
      exact compareEncoded_head (by omega) (by omega) _ _
    rw [if_neg low, if_pos (by omega)]
    by_cases lead : m / 0x40 = n / 0x40
    · simp only [List.cons_append, lead, compareEncoded_cons]
      exact compareEncoded_head (by omega) (by omega) _ _
    · exact compareEncoded_head (by omega) (by omega) _ _
  rw [if_neg two, if_pos plane]
  by_cases low : m < 0x80
  · rw [if_pos low]
    exact compareEncoded_head (by omega) (by omega) _ _
  rw [if_neg low]
  by_cases mid : m < 0x800
  · rw [if_pos mid]
    exact compareEncoded_head (by omega) (by omega) _ _
  rw [if_neg mid, if_pos (by omega)]
  by_cases lead : m / 0x1000 = n / 0x1000
  · simp only [List.cons_append, lead, compareEncoded_cons]
    by_cases middle : m / 0x40 % 0x40 = n / 0x40 % 0x40
    · simp only [middle, compareEncoded_cons]
      exact compareEncoded_head (by omega) (by omega) _ _
    · exact compareEncoded_head (by omega) (by omega) _ _
  · exact compareEncoded_head (by omega) (by omega) _ _

/-- A pair of surrogates comes after the mark for an unpaired one. -/
theorem encodePoint_replacement {n : Nat} (upper : 0x10000 ≤ n) (most : n < 0x110000) (x y : List UInt8) :
    compareEncoded (encodePoint 0xfffd ++ x) (encodePoint n ++ y) < 0 := by
  have shape : encodePoint 0xfffd = UInt8.ofNat 0xef :: [0xbf, 0xbd] := by decide
  rw [shape, encodePoint, if_neg (by omega), if_neg (by omega), if_neg (by omega)]
  exact compareEncoded_head (by omega) (by omega) _ _

theorem encodePoint_ne_nil (n : Nat) : ∃ b rest, encodePoint n = b :: rest := by
  unfold encodePoint
  split
  · exact ⟨_, _, rfl⟩
  split
  · exact ⟨_, _, rfl⟩
  split
  · exact ⟨_, _, rfl⟩
  · exact ⟨_, _, rfl⟩

theorem encode_ne_nil (x : UInt16) (rest : List UInt16) : ∃ b bytes, encode (x :: rest) = b :: bytes := by
  cases rest with
  | nil => exact encodePoint_ne_nil _
  | cons y rest =>
    rw [encode]
    split
    · obtain ⟨b, bytes, shape⟩ := encodePoint_ne_nil (0x10000 + (x.toNat - 0xd800) * 0x400 + (y.toNat - 0xdc00))
      exact ⟨b, bytes ++ encode rest, by rw [shape, List.cons_append]⟩
    · obtain ⟨b, bytes, shape⟩ := encodePoint_ne_nil (if isSurrogate x then 0xfffd else x.toNat)
      exact ⟨b, bytes ++ encode (y :: rest), by rw [shape, List.cons_append]⟩

/-- What follows a unit that is no low surrogate is encoded on its own. -/
theorem encode_append {c : UInt16} (low : isLowSurrogate c = false) (rest : List UInt16) (p : List UInt16) :
    encode (p ++ c :: rest) = encode p ++ encode (c :: rest) := by
  induction p using encode.induct with
  | case1 => rfl
  | case2 x => simp [encode, low]
  | case3 x y more paired ih =>
    rw [List.cons_append, List.cons_append, encode, if_pos paired, ih, encode, if_pos paired, List.append_assoc]
  | case4 x y more unpaired ih =>
    rw [List.cons_append, List.cons_append, encode, if_neg unpaired, encode, if_neg unpaired, List.append_assoc]
    rw [List.cons_append] at ih
    rw [ih]

/-- A string comes before its extensions. -/
theorem encode_prefix (c : UInt16) (rest p : List UInt16) :
    compareEncoded (encode p) (encode (p ++ c :: rest)) < 0 := by
  induction p using encode.induct with
  | case1 =>
    obtain ⟨b, bytes, shape⟩ := encode_ne_nil c rest
    rw [List.nil_append, shape]
    simp [encode, compareEncoded]
    omega
  | case2 x =>
    rw [List.singleton_append, encode, encode]
    by_cases paired : (isHighSurrogate x && isLowSurrogate c) = true
    · rw [if_pos paired]
      have marked : isSurrogate x = true := by
        simp only [isHighSurrogate, isSurrogate, Bool.and_eq_true, decide_eq_true_eq, UInt16.le_iff_toNat_le,
          UInt16.toNat_ofNat] at paired ⊢
        omega
      simp only [isHighSurrogate, isLowSurrogate, Bool.and_eq_true, decide_eq_true_eq, UInt16.le_iff_toNat_le,
        UInt16.toNat_ofNat] at paired
      have after :=
        encodePoint_replacement (n := 0x10000 + (x.toNat - 0xd800) * 0x400 + (c.toNat - 0xdc00)) (by omega)
        (by omega) [] (encode rest)
      rw [if_pos marked]
      simpa using after
    · rw [if_neg paired]
      obtain ⟨b, bytes, shape⟩ := encode_ne_nil c rest
      have none_ :=
        compareEncoded_append (encodePoint (if isSurrogate x then 0xfffd else x.toNat)) [] (encode (c :: rest))
      rw [List.append_nil] at none_
      rw [none_, shape]
      simp [compareEncoded]
      omega
  | case3 x y more paired ih =>
    rw [List.cons_append, List.cons_append, encode, if_pos paired, encode, if_pos paired, compareEncoded_append]
    exact ih
  | case4 x y more unpaired ih =>
    rw [List.cons_append, List.cons_append, encode, if_neg unpaired, encode, if_neg unpaired, compareEncoded_append]
    exact ih

theorem isLowSurrogate_of_not {c : UInt16} (plain : isSurrogate c = false) : isLowSurrogate c = false := by
  simp only [isSurrogate, isLowSurrogate, Bool.and_eq_false_iff, decide_eq_false_iff_not, UInt16.le_iff_toNat_le,
    UInt16.toNat_ofNat] at plain ⊢
  omega

/-- A unit that is no surrogate is encoded by itself. -/
theorem encode_plain {c : UInt16} (plain : isSurrogate c = false) (rest : List UInt16) :
    ∃ r, encode (c :: rest) = encodePoint c.toNat ++ r := by
  cases rest with
  | nil => exact ⟨[], by simp [encode, plain]⟩
  | cons d rest =>
    have single : isHighSurrogate c = false := by
      simp only [isSurrogate, isHighSurrogate, Bool.and_eq_false_iff,
        decide_eq_false_iff_not, UInt16.le_iff_toNat_le, UInt16.toNat_ofNat] at plain ⊢
      omega
    exact ⟨encode (d :: rest), by simp [encode, plain, single]⟩

/-- The scan from a common head decides as the bytes do. -/
theorem compareUnits_bytes (p x y : List UInt16) :
    compareUnits (p ++ x) (p ++ y) x y ≤ 0 ↔ compareBytes (p ++ x) (p ++ y) ≤ 0 := by
  induction x generalizing p y with
  | nil =>
    cases y with
    | nil =>
      have same := compareEncoded_append (encode (p ++ [])) [] []
      rw [List.append_nil (encode (p ++ []))] at same
      exact iff_of_true (by simp [compareUnits]) same.le
    | cons d ys =>
      have before := encode_prefix d ys p
      have sooner : compareUnits (p ++ []) (p ++ d :: ys) [] (d :: ys) ≤ 0 := by
        simp only [compareUnits, List.length_nil, List.length_cons]
        omega
      rw [compareBytes, List.append_nil]
      rw [List.append_nil] at sooner
      exact iff_of_true sooner before.le
  | cons c xs ih =>
    cases y with
    | nil =>
      have before := encode_prefix c xs p
      have after : ¬ compareUnits (p ++ c :: xs) (p ++ []) (c :: xs) [] ≤ 0 := by
        simp only [compareUnits, List.length_nil, List.length_cons]
        omega
      rw [compareBytes, List.append_nil, compareEncoded_swap]
      simp only [List.append_nil] at after
      exact iff_of_false after (by omega)
    | cons d ys =>
      rw [compareUnits]
      by_cases same : c = d
      · subst same
        rw [if_pos rfl]
        have next := ih (p ++ [c]) ys
        simpa using next
      rw [if_neg same]
      by_cases surrogate : (isSurrogate c || isSurrogate d) = true
      · rw [if_pos surrogate]
      rw [if_neg surrogate]
      simp only [Bool.not_eq_true, Bool.or_eq_false_iff] at surrogate
      rw [compareBytes, encode_append (isLowSurrogate_of_not surrogate.1),
        encode_append (isLowSurrogate_of_not surrogate.2), compareEncoded_append]
      obtain ⟨r, bytes⟩ := encode_plain surrogate.1 xs
      obtain ⟨r', bytes'⟩ := encode_plain surrogate.2 ys
      rw [bytes, bytes']
      have differ : c.toNat ≠ d.toNat := fun eq => same (UInt16.toNat_inj.mp eq)
      rcases lt_or_gt_of_ne differ with lt | gt
      · have before := encodePoint_lt lt (UInt16.toNat_lt d) r r'
        exact iff_of_true (by omega) before.le
      · have after := encodePoint_lt gt (UInt16.toNat_lt c) r' r
        rw [compareEncoded_swap]
        exact iff_of_false (by omega) (by omega)

theorem compareMembers_bytes (a b : List UInt16) : compareMembers a b ≤ 0 ↔ compareBytes a b ≤ 0 :=
  compareUnits_bytes [] a b

theorem compareEncoded_le (x y : List UInt8) : compareEncoded x y ≤ 0 ↔ x ≤ y := by
  induction x generalizing y with
  | nil => simp [compareEncoded]
  | cons b xs ih =>
    cases y with
    | nil =>
      simp only [compareEncoded, List.length_cons, List.length_nil]
      exact iff_of_false (by omega) (by simp)
    | cons c ys =>
      rw [compareEncoded, List.cons_le_cons_iff]
      by_cases same : b = c
      · simp [same, ih]
      · rw [if_neg same, UInt8.lt_iff_toNat_lt]
        have differ : b.toNat ≠ c.toNat := fun eq => same (UInt8.toNat_inj.mp eq)
        constructor
        · intro le
          exact .inl (by omega)
        · rintro (lt | ⟨eq, -⟩)
          · omega
          · exact absurd eq same

theorem compareMembers_total (a b : List UInt16) : compareMembers a b ≤ 0 ∨ compareMembers b a ≤ 0 := by
  rw [compareMembers_bytes, compareMembers_bytes, compareBytes, compareBytes, compareEncoded_swap (encode a)]
  omega

theorem compareMembers_trans {a b c : List UInt16} (first : compareMembers a b ≤ 0)
    (second : compareMembers b c ≤ 0) : compareMembers a c ≤ 0 := by
  rw [compareMembers_bytes] at first second ⊢
  exact compareEncoded_trans first second

/-- The bytes a member is sent as. -/
def memberBytes (s : String) : List UInt8 := encode (utf16 s)

end Bytes

section Scores

instance : Std.Total State.scoreLe where
  total a b := by
    rcases lt_trichotomy a.2 b.2 with lt | same | gt
    · exact .inl (.inl lt)
    · rcases compareMembers_total (utf16 a.1) (utf16 b.1) with le | ge
      · exact .inl (.inr ⟨same, le⟩)
      · exact .inr (.inr ⟨same.symm, ge⟩)
    · exact .inr (.inl gt)

instance : IsTrans (String × ℚ) State.scoreLe where
  trans a b c first second := by
    rcases first with lt | ⟨same, le⟩
    · rcases second with lt' | ⟨same', -⟩
      · exact .inl (lt.trans lt')
      · exact .inl (same' ▸ lt)
    · rcases second with lt' | ⟨same', le'⟩
      · exact .inl (same ▸ lt')
      · exact .inr ⟨same.trans same', compareMembers_trans le le'⟩

end Scores

section Units

theorem compareUnits_swap (a b x y : List UInt16) : compareUnits b a y x = -compareUnits a b x y := by
  induction x generalizing y with
  | nil => cases y <;> simp [compareUnits]
  | cons c xs ih =>
    cases y with
    | nil => simp [compareUnits]
    | cons d ys =>
      by_cases same : c = d
      · rw [compareUnits, compareUnits, if_pos same, if_pos same.symm, ih]
      rw [compareUnits, compareUnits, if_neg same, if_neg (Ne.symm same), Bool.or_comm]
      split
      · exact compareEncoded_swap _ _
      · omega

theorem compareMembers_swap (a b : List UInt16) : compareMembers b a = -compareMembers a b :=
  compareUnits_swap a b a b

theorem compareMembers_le (a b : List UInt16) : compareMembers a b ≤ 0 ↔ encode a ≤ encode b := by
  rw [compareMembers_bytes, compareBytes, compareEncoded_le]

theorem compareMembers_sign (a b : List UInt16) : (compareMembers a b).sign = (compareBytes a b).sign := by
  have below := compareMembers_bytes a b
  have above := compareMembers_bytes b a
  rw [compareMembers_swap, compareBytes, compareEncoded_swap] at above
  rw [compareBytes] at below ⊢
  generalize compareMembers a b = m at below above ⊢
  generalize compareEncoded (encode a) (encode b) = n at below above ⊢
  rcases lt_trichotomy n 0 with neg | zero | pos
  · rw [Int.sign_eq_neg_one_of_neg neg, Int.sign_eq_neg_one_of_neg (by omega)]
  · have none_ : m = 0 := by omega
    rw [zero, none_]
  · rw [Int.sign_eq_one_of_pos pos, Int.sign_eq_one_of_pos (by omega)]

variable {σ : Type} [LinearOrder σ]

/-- The comparison of `sorted`, on members of any units and scores of any ordered type. -/
def entryLe (a b : List UInt16 × σ) : Prop := a.2 < b.2 ∨ a.2 = b.2 ∧ compareMembers a.1 b.1 ≤ 0

instance : DecidableRel (@entryLe σ _) := fun a b =>
  inferInstanceAs (Decidable (a.2 < b.2 ∨ a.2 = b.2 ∧ compareMembers a.1 b.1 ≤ 0))

/-- `sorted`, of entries whose members may hold unpaired surrogates. -/
def sortedEntries (entries : List (List UInt16 × σ)) : List (List UInt16 × σ) := entries.insertionSort entryLe

instance : Std.Total (@entryLe σ _) where
  total a b := by
    rcases lt_trichotomy a.2 b.2 with lt | same | gt
    · exact .inl (.inl lt)
    · rcases compareMembers_total a.1 b.1 with le | ge
      · exact .inl (.inr ⟨same, le⟩)
      · exact .inr (.inr ⟨same.symm, ge⟩)
    · exact .inr (.inl gt)

instance : IsTrans (List UInt16 × σ) entryLe where
  trans a b c first second := by
    rcases first with lt | ⟨same, le⟩
    · rcases second with lt' | ⟨same', -⟩
      · exact .inl (lt.trans lt')
      · exact .inl (same' ▸ lt)
    · rcases second with lt' | ⟨same', le'⟩
      · exact .inl (same ▸ lt')
      · exact .inr ⟨same.trans same', compareMembers_trans le le'⟩

/-- The store's own sort is this one, of the units of its members. -/
theorem sorted_units (s : State) (key : String) (now : ℚ) :
    (s.sorted key now).map utf16 = match s.zset key now with
      | none => []
      | some z => (sortedEntries (z.entries.map fun e => (utf16 e.1, e.2))).map Prod.fst := by
  unfold State.sorted
  cases s.zset key now with
  | none => rfl
  | some z =>
    have moved := List.map_insertionSort State.scoreLe (@entryLe ℚ _) (fun e : String × ℚ => (utf16 e.1, e.2))
      (z.entries.map fun e => (e.1, e.2)) fun a _ b _ => Iff.rfl
    rw [List.map_map] at moved
    simp only [sortedEntries]
    rw [List.map_map]
    have first : (utf16 ∘ Prod.fst : String × ℚ → List UInt16) = Prod.fst ∘ fun e => (utf16 e.1, e.2) := rfl
    rw [first, ← List.map_map, moved]
    rfl

/-- `compareMembers` has the sign of the comparison of UTF-8 bytes whatever the
units, so that equal scores are ordered by a total preorder, as bytes are, and
`sorted` puts entries by score and then by bytes. -/
theorem members_ordered_by_bytes :
    (∀ a b : List UInt16, (compareMembers a b).sign = (compareBytes a b).sign) ∧
      (∀ a b : List UInt16, compareMembers a b ≤ 0 ∨ compareMembers b a ≤ 0) ∧
      (∀ a b c : List UInt16, compareMembers a b ≤ 0 → compareMembers b c ≤ 0 → compareMembers a c ≤ 0) ∧
      ∀ {σ : Type} [LinearOrder σ] (entries : List (List UInt16 × σ)),
        (sortedEntries entries).Perm entries ∧
          (sortedEntries entries).Pairwise fun a b => a.2 < b.2 ∨ a.2 = b.2 ∧ encode a.1 ≤ encode b.1 := by
  refine ⟨compareMembers_sign, compareMembers_total, fun a b c => compareMembers_trans, ?_⟩
  intro σ _ entries
  refine ⟨List.perm_insertionSort _ _, ?_⟩
  have sorted := List.pairwise_insertionSort (r := @entryLe σ _) entries
  refine sorted.imp ?_
  rintro a b (lt | ⟨same, le⟩)
  · exact .inl lt
  · exact .inr ⟨same, (compareMembers_le _ _).mp le⟩

end Units

end Dianemo
