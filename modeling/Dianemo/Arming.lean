import Dianemo.Window

namespace Dianemo

open JsNumber

/-- The earliest instant `Date.now()` can name. -/
def earliestDate : ℚ := -8640000000000000

/-- A requested value as the merge takes it: a number that is not finite asks for nothing. -/
def requested (x : JsNumber) : ℚ := if x.isFinite then x.toRat else 0

theorem requested_spec (x : JsNumber) : (if x.isFinite then x else 0) = fin (requested x) := by
  cases x <;> simp [requested, isFinite]

section Storable

/-- `storable` on the rationals it is called on. -/
def stored (least q : ℚ) : ℚ := Min.min (Max.max (if 0 ≤ q then (⌊q⌋ : ℚ) else ⌈q⌉) least) maxSafeInteger

theorem storable_fin (least q : ℚ) : storable (fin q) least = fin (stored least q) := by
  by_cases sign : 0 ≤ q <;> simp [storable, stored, JsNumber.trunc, sign]

theorem trunc_monotone : Monotone fun q : ℚ => if 0 ≤ q then (⌊q⌋ : ℚ) else ⌈q⌉ := by
  intro a b le
  by_cases negative : 0 ≤ a
  · have positive : 0 ≤ b := negative.trans le
    simp only [if_pos negative, if_pos positive]
    exact_mod_cast Int.floor_mono le
  · by_cases positive : 0 ≤ b
    · simp only [if_neg negative, if_pos positive]
      have low : ⌈a⌉ ≤ 0 := Int.ceil_le.mpr (by exact_mod_cast (not_le.mp negative).le)
      have high : 0 ≤ ⌊b⌋ := Int.floor_nonneg.mpr positive
      exact_mod_cast low.trans high
    · simp only [if_neg negative, if_neg positive]
      exact_mod_cast Int.ceil_mono le

theorem stored_monotone (least : ℚ) : Monotone (stored least) := by
  intro a b le
  exact min_le_min_right _ (max_le_max_right _ (trunc_monotone le))

theorem trunc_intCast (n : ℤ) : (if 0 ≤ (n : ℚ) then (⌊(n : ℚ)⌋ : ℚ) else ⌈(n : ℚ)⌉) = n := by
  rw [Int.floor_intCast, Int.ceil_intCast, ite_self]

theorem stored_whole (least : ℤ) (q : ℚ) : ∃ n : ℤ, stored least q = n ∧ stored least n = n := by
  obtain ⟨m, cut⟩ : ∃ m : ℤ, (if 0 ≤ q then (⌊q⌋ : ℚ) else ⌈q⌉) = m := by
    by_cases sign : 0 ≤ q
    · exact ⟨⌊q⌋, if_pos sign⟩
    · exact ⟨⌈q⌉, if_neg sign⟩
  have limit : maxSafeInteger = ((9007199254740991 : ℤ) : ℚ) := by norm_num [maxSafeInteger]
  refine ⟨Min.min (Max.max m least) 9007199254740991, ?_, ?_⟩
  · rw [stored, cut, limit]
    push_cast
    rfl
  · rw [stored, trunc_intCast, limit]
    norm_cast
    rw [min_def, max_def]
    split_ifs <;> omega

/-- What is stored is stored again as it is. -/
theorem stored_stored (least : ℤ) (q : ℚ) : stored least (stored least q) = stored least q := by
  obtain ⟨n, value, fixed⟩ := stored_whole least q
  rw [value, fixed]

theorem stored_le (least q : ℚ) : stored least q ≤ maxSafeInteger := min_le_right _ _

/-- Storing between two merges changes nothing. -/
theorem stored_max (least : ℤ) (a b : ℚ) : stored least (Max.max (stored least a) b) =
    stored least (Max.max a b) := by
  rw [(stored_monotone _).map_max, stored_stored, (stored_monotone _).map_max]

end Storable

/-- A freeze as a merge reads it. -/
structure Freezing where
  deadline : ℚ
  count : ℚ
  empties : Bool

def standing (s : State) (key : String) (now : ℚ) : Option Freezing :=
  (usableDeadline (s.hget key "frozenUntil" now)).map fun deadline =>
    ⟨deadline, (parseFiniteStored (s.hget key "thawRequestCount" now) 0).toRat,
      decide (s.hget key "emptiesBucket" now ≠ some (.text "0"))⟩

def FreezeWrite.standing (write : FreezeWrite) : Freezing :=
  ⟨requested write.frozenUntil, requested write.thawRequestCount, write.emptiesBucket⟩

/-- The larger of two freezes, as it is stored; a lapsed one's bucket has been refilling since. -/
def Freezing.merge (now : ℚ) (asked : Freezing) : Option Freezing → Freezing
  | none => ⟨stored (-maxSafeInteger) asked.deadline, stored 0 asked.count, asked.empties⟩
  | some old => ⟨stored (-maxSafeInteger) (Max.max old.deadline asked.deadline),
      stored 0 (Max.max old.count asked.count),
      asked.empties || (decide (now < old.deadline) && old.empties)⟩

/-- What the fields of a freeze key say. -/
def Freezing.Written (f : Freezing) (s : State) (key : String) (now : ℚ) : Prop :=
  s.hget key "frozenUntil" now = some (.num (fin f.deadline)) ∧
    s.hget key "thawRequestCount" now = some (.num (fin f.count)) ∧
    s.hget key "emptiesBucket" now = some (.text (if f.empties then "1" else "0"))

section Arm

variable {s : State} {key : String} {now : ℚ}

theorem Freezing.Written.standing {f : Freezing} (written : f.Written s key now) :
    Dianemo.standing s key now = some f := by
  obtain ⟨deadline, count, empties⟩ := f
  obtain ⟨first, second, third⟩ := written
  have one : ("1" : String) ≠ "0" := by decide
  cases empties <;>
    simp [Dianemo.standing, first, second, third, usableDeadline, parseStoredNumber, parseFiniteStored, one]

/-- The merge keeps the larger deadline and the larger count. -/
theorem mergeFreeze_standing (deadline count : ℚ) (empties : Bool) :
    mergeFreeze s key ⟨fin deadline, fin count, empties⟩ now = match standing s key now with
      | none => ⟨fin deadline, fin count, empties⟩
      | some old => ⟨fin (Max.max old.deadline deadline), fin (Max.max old.count count),
          empties || (decide (now < old.deadline) && old.empties)⟩ := by
  rw [mergeFreeze, standing]
  cases usableDeadline (s.hget key "frozenUntil" now) with
  | none => rfl
  | some F =>
    rw [← fin_toRat (parseFiniteStored_zero_finite (s.hget key "thawRequestCount" now))]
    have larger : ∀ a b : ℚ, (if fin b < fin a then fin a else fin b) = fin (Max.max a b) := by
      intro a b
      by_cases less : b < a
      · rw [if_pos (fin_lt_fin.mpr less), max_eq_left less.le]
      · rw [if_neg fun lt => less (fin_lt_fin.mp lt), max_eq_right (not_lt.mp less)]
    simp only [larger, Option.map_some, toRat_fin]

/-- The lifetime of a freeze in range is one the store takes. -/
theorem freezeTtlSeconds_whole {F : ℚ} (bounded : F ≤ maxSafeInteger)
    (clock : earliestDate ≤ now) (count : JsNumber) :
    ∃ ttl, freezeTtlSeconds (fin F) count now = fin ttl ∧ WholeTtl ttl := by
  obtain ⟨more, added, positive, small⟩ : ∃ more : ℤ,
      (if 0 < count then fin freezeProbeTtlSeconds else 60) = fin more ∧ 0 < more ∧ more ≤ 604800 := by
    by_cases owed : 0 < count
    · exact ⟨604800, by rw [if_pos owed]; norm_num [freezeProbeTtlSeconds], by norm_num, by norm_num⟩
    · exact ⟨60, by rw [if_neg owed, ofNat_eq]; norm_num, by norm_num, by norm_num⟩
  have thousand : (1000 : ℚ) ≠ 0 := by norm_num
  have sized : freezeTtlSeconds (fin F) count now = fin ((Max.max ⌈(F - now) / 1000⌉ 0 + more : ℤ) : ℚ) := by
    rw [freezeTtlSeconds, added, ofNat_eq, sub_fin, div_fin thousand, ceil_fin, zero_eq, max_fin, add_fin]
    push_cast
    rfl
  have window : ⌈(F - now) / 1000⌉ ≤ 17647199254741 := by
    rw [Int.ceil_le, div_le_iff₀ (by norm_num)]
    simp only [earliestDate, maxSafeInteger] at clock bounded
    push_cast
    linarith
  refine ⟨_, sized, ?_, ?_, by rw [Int.ceil_intCast]⟩
  · have least : 0 < Max.max ⌈(F - now) / 1000⌉ 0 + more := by omega
    exact_mod_cast least
  · have most : Max.max ⌈(F - now) / 1000⌉ 0 + more ≤ 9200000000000000 := by omega
    simp only [redisMaxTtlSeconds]
    exact_mod_cast most

/-- Arming writes the merge of what stands and what is asked, and answers with it. -/
theorem armFreeze_standing (s : State) (key : String) (clock : earliestDate ≤ now) (write : FreezeWrite) :
    ∃ s', (armFreeze key write.frozenUntil write.thawRequestCount write.emptiesBucket now).run s =
        (.ok (fin (write.standing.merge now (standing s key now)).deadline,
          fin (write.standing.merge now (standing s key now)).count), s') ∧
      (write.standing.merge now (standing s key now)).Written s' key now := by
  obtain ⟨frozenUntil, thawRequestCount, emptiesBucket⟩ := write
  set merged :=
    FreezeWrite.standing ⟨frozenUntil, thawRequestCount, emptiesBucket⟩ |>.merge now (standing s key now)
    with merging
  have deadline : storable (mergeFreeze s key ⟨fin (requested frozenUntil), fin (requested thawRequestCount),
      emptiesBucket⟩ now).frozenUntil (-maxSafeInteger) = fin merged.deadline := by
    rw [mergeFreeze_standing, merging]
    cases standing s key now <;> exact storable_fin _ _
  have count : storable (mergeFreeze s key ⟨fin (requested frozenUntil), fin (requested thawRequestCount),
      emptiesBucket⟩ now).thawRequestCount 0 = fin merged.count := by
    rw [mergeFreeze_standing, merging]
    cases standing s key now <;> exact storable_fin _ _
  have empties : (mergeFreeze s key ⟨fin (requested frozenUntil), fin (requested thawRequestCount),
      emptiesBucket⟩ now).emptiesBucket = merged.empties := by
    rw [mergeFreeze_standing, merging]
    cases standing s key now <;> rfl
  have bounded : merged.deadline ≤ maxSafeInteger := by
    rw [merging]
    cases standing s key now <;> exact stored_le _ _
  obtain ⟨ttl, sized, whole⟩ := freezeTtlSeconds_whole bounded clock (fin merged.count)
  rw [armFreeze, writeFreezeState, Op.run_bind_ok (Op.run_read s)]
  simp only [requested_spec, deadline, count, empties, sized, whole.normalize]
  rw [Op.run_bind_ok (Op.run_lift _ s), Op.run_bind_ok (Op.run_modify _ s),
    Op.run_bind_ok (expire_setFields whole s key now _)]
  refine ⟨_, rfl, ?_⟩
  have held : (s.putFields key now _ ttl).Held key now _ _ := held_putFields whole.pos
    [("frozenUntil", .num (fin merged.deadline)), ("thawRequestCount", .num (fin merged.count)),
      ("emptiesBucket", .text (if merged.empties then "1" else "0"))]
  refine ⟨?_, ?_, ?_⟩
  all_goals
    rw [hget_of_held held]
    simp [withFields, AList.lookup_insert_ne]

end Arm

section Merges

/-- What stands after each of `asked` has been merged in turn. -/
def Freezing.after (now : ℚ) (start : Option Freezing) (asked : List Freezing) : Option Freezing :=
  asked.foldl (fun old a => some (a.merge now old)) start

/-- The starting freeze and everything asked for, whatever the order. -/
def Freezing.among (start : Option Freezing) (asked : List Freezing) : Set Freezing :=
  {f | f ∈ start ∨ f ∈ asked}

/-- The freeze the last call of `asked` left its flag on. -/
def Freezing.source (start : Option Freezing) (asked : List Freezing) : Option Freezing :=
  asked.getLast?.or start

/-- A flag reaches the end if the freeze stored stands at every call that follows it. -/
def Freezing.Carried (now : ℚ) (start : Option Freezing) (asked : List Freezing) : Prop :=
  ∃ early late, asked = early ++ late ∧ (∃ f ∈ Freezing.source start early, f.empties = true) ∧
    ∀ mid rest, late = mid ++ rest → rest ≠ [] → ∃ g ∈ Freezing.after now start (early ++ mid), now < g.deadline

/-- Some call asked for it, or the starting freeze has it and stands. -/
def Freezing.AskedFor (now : ℚ) (start : Option Freezing) (asked : List Freezing) : Prop :=
  (∃ a ∈ asked, a.empties = true) ∨ ∃ f ∈ start, f.empties = true ∧ now < f.deadline

/-- No flag is on a freeze that is stored already lapsed. -/
def Freezing.Lasting (now : ℚ) (start : Option Freezing) (asked : List Freezing) : Prop :=
  (∃ f ∈ start, now < stored (-maxSafeInteger) f.deadline) ∨
    (∀ f ∈ start, now < f.deadline → f.empties = false) ∧
      ∀ a ∈ asked, a.empties = true → now < stored (-maxSafeInteger) a.deadline

variable {now : ℚ} {start : Option Freezing} {asked : List Freezing} {a f : Freezing}

theorem Freezing.after_concat : Freezing.after now start (asked ++ [a]) =
    some (a.merge now (Freezing.after now start asked)) := by
  rw [Freezing.after, List.foldl_concat]
  rfl

theorem Freezing.among_concat : Freezing.among start (asked ++ [a]) = insert a (Freezing.among start asked) := by
  ext f
  simp only [Freezing.among, Set.mem_ofPred_eq, List.mem_append, List.mem_singleton, Set.mem_insert_iff]
  tauto

theorem Freezing.after_exists (now : ℚ) (start : Option Freezing) (some_ : asked ≠ []) :
    ∃ f, Freezing.after now start asked = some f := by
  obtain ⟨early, a, rfl⟩ := List.eq_nil_or_concat' asked |>.resolve_left some_
  exact ⟨_, Freezing.after_concat⟩

/-- One field of the result: the largest value merged, as it is stored. -/
theorem Freezing.after_greatest {value : Freezing → ℚ} {least : ℤ}
    (first : ∀ a, value (a.merge now none) = stored least (value a))
    (next : ∀ a old, value (a.merge now (some old)) = stored least (Max.max (value old) (value a)))
    (some_ : asked ≠ []) (result : Freezing.after now start asked = some f) :
    ∃ q, IsGreatest (value '' Freezing.among start asked) q ∧ value f = stored least q := by
  induction asked using List.reverseRecOn generalizing f with
  | nil => exact absurd rfl some_
  | append_singleton early a ih =>
    rw [Freezing.after_concat] at result
    cases result
    rw [Freezing.among_concat, Set.image_insert_eq]
    by_cases alone : early = []
    · subst alone
      cases start with
      | none =>
        refine ⟨value a, ?_, first a⟩
        simp [Freezing.among]
      | some old =>
        refine ⟨Max.max (value a) (value old), IsGreatest.insert _ ?_, ?_⟩
        · have single : Freezing.among (some old) [] = {old} := by
            ext f
            simp [Freezing.among, eq_comm]
          rw [single, Set.image_singleton]
          exact isGreatest_singleton
        · rw [max_comm]
          exact next a old
    · obtain ⟨g, stands⟩ := Freezing.after_exists now start alone
      obtain ⟨q, greatest, value_⟩ := ih alone stands
      refine ⟨Max.max (value a) q, greatest.insert _, ?_⟩
      rw [stands, next, value_, stored_max, max_comm]

theorem Freezing.after_deadline (some_ : asked ≠ []) (result : Freezing.after now start asked = some f) :
    ∃ q, IsGreatest (Freezing.deadline '' Freezing.among start asked) q ∧
      f.deadline = stored (-maxSafeInteger) q := by
  have limit : (-maxSafeInteger : ℚ) = ((-9007199254740991 : ℤ) : ℚ) := by norm_num [maxSafeInteger]
  rw [limit]
  refine Freezing.after_greatest (fun a => ?_) (fun a old => ?_) some_ result
  · rw [← limit]
    rfl
  · rw [← limit]
    rfl

theorem Freezing.after_count (some_ : asked ≠ []) (result : Freezing.after now start asked = some f) :
    ∃ q, IsGreatest (Freezing.count '' Freezing.among start asked) q ∧ f.count = stored 0 q := by
  have zero : (0 : ℚ) = ((0 : ℤ) : ℚ) := Int.cast_zero.symm
  rw [zero]
  refine Freezing.after_greatest (fun a => ?_) (fun a old => ?_) some_ result
  · rw [← zero]
    rfl
  · rw [← zero]
    rfl

/-- The deadline is no earlier than any that was merged into it. -/
theorem Freezing.after_later {g : Freezing} (some_ : asked ≠ []) (result : Freezing.after now start asked = some f)
    (merged : g ∈ Freezing.among start asked) : stored (-maxSafeInteger) g.deadline ≤ f.deadline := by
  obtain ⟨q, greatest, value⟩ := Freezing.after_deadline some_ result
  rw [value]
  exact stored_monotone _ (greatest.2 ⟨g, merged, rfl⟩)

theorem Freezing.merge_empties (old : Option Freezing) :
    (a.merge now old).empties = true ↔ a.empties = true ∨ ∃ g ∈ old, now < g.deadline ∧ g.empties = true := by
  cases old <;> simp [Freezing.merge]

theorem Freezing.carried_concat : Freezing.Carried now start (asked ++ [a]) ↔
    a.empties = true ∨ Freezing.Carried now start asked ∧
      ∃ g ∈ Freezing.after now start asked, now < g.deadline := by
  constructor
  · rintro ⟨early, late, split, flagged, stands⟩
    rcases List.eq_nil_or_concat' late with rfl | ⟨late, b, rfl⟩
    · left
      rw [List.append_nil] at split
      subst split
      simpa [Freezing.source] using flagged
    · right
      rw [← List.append_assoc] at split
      obtain ⟨rfl, -⟩ := List.append_inj' split rfl
      refine ⟨⟨early, late, rfl, flagged, ?_⟩, stands late [b] rfl (List.cons_ne_nil _ _)⟩
      rintro mid rest rfl more
      exact stands mid (rest ++ [b]) (List.append_assoc _ _ _) (by simp)
  · rintro (asks | ⟨⟨early, late, rfl, flagged, stands⟩, last⟩)
    · refine ⟨asked ++ [a], [], (List.append_nil _).symm, ?_, ?_⟩
      · simpa [Freezing.source] using asks
      · intro mid rest split more
        obtain ⟨-, rfl⟩ := List.nil_eq_append_iff.mp split
        exact absurd rfl more
    · refine ⟨early, late ++ [a], List.append_assoc _ _ _, flagged, ?_⟩
      intro mid rest split more
      obtain ⟨rest, b, rfl⟩ := List.eq_nil_or_concat' rest |>.resolve_left more
      rw [← List.append_assoc] at split
      obtain ⟨rfl, -⟩ := List.append_inj' split rfl
      by_cases none_ : rest = []
      · subst none_
        rwa [List.append_nil] at last
      · exact stands mid rest rfl none_

theorem Freezing.carried_nil : Freezing.Carried now start [] ↔ ∃ f ∈ start, f.empties = true := by
  constructor
  · rintro ⟨early, late, split, flagged, -⟩
    obtain ⟨rfl, rfl⟩ := List.nil_eq_append_iff.mp split
    exact flagged
  · intro flagged
    refine ⟨[], [], rfl, flagged, ?_⟩
    intro mid rest split more
    obtain ⟨-, rfl⟩ := List.nil_eq_append_iff.mp split
    exact absurd rfl more

theorem Freezing.after_carried :
    (∃ f ∈ Freezing.after now start asked, f.empties = true) ↔ Freezing.Carried now start asked := by
  induction asked using List.reverseRecOn with
  | nil => exact Freezing.carried_nil.symm
  | append_singleton early a ih =>
    rw [Freezing.after_concat, Freezing.carried_concat, ← ih]
    simp only [Option.mem_some_iff, exists_eq_left', Freezing.merge_empties]
    cases Freezing.after now start early <;> simp [and_comm]

/-- Once every flag is on a freeze that stands, none is lost on the way. -/
theorem Freezing.after_lasting (some_ : asked ≠ []) (lasting : Freezing.Lasting now start asked)
    (result : Freezing.after now start asked = some f) : f.empties = true ↔ Freezing.AskedFor now start asked := by
  induction asked using List.reverseRecOn generalizing f with
  | nil => exact absurd rfl some_
  | append_singleton early a ih =>
    rw [Freezing.after_concat] at result
    cases result
    rw [Freezing.merge_empties]
    have split : Freezing.AskedFor now start (early ++ [a]) ↔ a.empties = true ∨
        Freezing.AskedFor now start early := by
      simp only [Freezing.AskedFor, List.mem_append, List.mem_singleton, or_and_right, exists_or, exists_eq_left]
      exact or_assoc.trans or_left_comm
    rw [split]
    by_cases alone : early = []
    · subst alone
      simp [Freezing.AskedFor, Freezing.after, and_comm]
    obtain ⟨g, stands⟩ := Freezing.after_exists now start alone
    have sooner : Freezing.Lasting now start early :=
      lasting.imp_right fun ⟨first, asks⟩ => ⟨first, fun b mem => asks b (List.mem_append_left _ mem)⟩
    have flag := ih alone sooner stands
    -- a flag that is there is there on a freeze that stands
    have later : Freezing.AskedFor now start early → now < g.deadline := by
      rintro (⟨b, mem, asks⟩ | ⟨old, found, flagged, window⟩)
      · rcases sooner with ⟨old, found, window⟩ | ⟨-, windows⟩
        · exact window.trans_le (Freezing.after_later alone stands (.inl found))
        · exact (windows b mem asks).trans_le (Freezing.after_later alone stands (.inr mem))
      · rcases sooner with ⟨old, found, window⟩ | ⟨unflagged, -⟩
        · exact window.trans_le (Freezing.after_later alone stands (.inl found))
        · exact absurd (unflagged old found window) (by simp [flagged])
    simp only [stands, Option.mem_some_iff, exists_eq_left', flag]
    tauto

end Merges

/-- What a call asks the freeze to be. -/
def FreezeCall.asked : FreezeCall → Option Freezing
  | .armFreeze frozenUntil thawRequestCount emptiesBucket =>
    some (FreezeWrite.standing ⟨frozenUntil, thawRequestCount, emptiesBucket⟩)
  | _ => none

/-- What the calls of a run ask for, in their order. -/
def askedBy (calls : List FreezeCall) : List Freezing := calls.filterMap FreezeCall.asked

/-- A run at one instant in which nothing but `armFreeze` writes to `key`. -/
structure Arms (key : String) (now : ℚ) (s : State) (calls : List FreezeCall) : Prop where
  valid : (freezeRuns key).Valid now s (calls.map (Prod.mk now))
  noProbe : ∀ success completionId, .updateThawProgress success completionId ∉ calls

def armed (key : String) (now : ℚ) (s : State) (calls : List FreezeCall) : State :=
  (freezeRuns key).final s (calls.map (Prod.mk now))

/-- What the fields of `key` are once all of `asked` was armed over `start`. -/
structure ArmedBy (now : ℚ) (start : Option Freezing) (asked : List Freezing) (s : State)
    (key : String) : Prop where
  deadline : ∃ q, IsGreatest (Freezing.deadline '' Freezing.among start asked) q ∧
    s.hget key "frozenUntil" now = some (.num (storable (fin q) (-maxSafeInteger)))
  count : ∃ q, IsGreatest (Freezing.count '' Freezing.among start asked) q ∧
    s.hget key "thawRequestCount" now = some (.num (storable (fin q) 0))
  empties : ∃ flag : Bool, s.hget key "emptiesBucket" now = some (.text (if flag then "1" else "0")) ∧
    (flag = true ↔ Freezing.Carried now start asked) ∧
    (Freezing.Lasting now start asked → (flag = true ↔ Freezing.AskedFor now start asked))

section ArmRuns

variable {s : State} {key : String} {now : ℚ} {calls : List FreezeCall}

theorem Freezing.Written.keeps {f : Freezing} {s' : State} (keeps : Keeps {key} now s s')
    (written : f.Written s key now) : f.Written s' key now := by
  simpa only [Freezing.Written, State.hget_congr (keeps.live key rfl)] using written

theorem standing_keeps {s' : State} (keeps : Keeps {key} now s s') : standing s' key now = standing s key now := by
  simp only [standing, State.hget_congr (keeps.live key rfl)]

/-- A run leaves the merge of what it asks for, in the order it asks. -/
theorem Arms.after (clock : earliestDate ≤ now) (arms : Arms key now s calls) :
    standing (armed key now s calls) key now = Freezing.after now (standing s key now) (askedBy calls) ∧
      ∀ f, Freezing.after now (standing s key now) (askedBy calls) = some f →
        (askedBy calls = [] → f.Written s key now) →
        f.Written (armed key now s calls) key now := by
  induction calls generalizing s with
  | nil => exact ⟨rfl, fun f found written => written rfl⟩
  | cons call rest ih =>
    obtain ⟨valid, noProbe⟩ := arms
    obtain ⟨-, allowed, valid⟩ := Timed.Machine.valid_cons.mp valid
    have others : Arms key now (call.exec key now s) rest :=
      ⟨valid, fun success completionId mem => noProbe success completionId (List.mem_cons_of_mem _ mem)⟩
    obtain ⟨stands, written⟩ := ih others
    cases call with
    | armFreeze frozenUntil thawRequestCount emptiesBucket =>
      obtain ⟨s', run, made⟩ := armFreeze_standing s key clock ⟨frozenUntil, thawRequestCount, emptiesBucket⟩
      have here : (FreezeCall.armFreeze frozenUntil thawRequestCount emptiesBucket).exec key now s = s' := by
        simp only [FreezeCall.exec, run]
      have stepped : (freezeRuns key).step now
        (.armFreeze frozenUntil thawRequestCount emptiesBucket) s = s' := here
      rw [here, made.standing] at stands written
      change standing (armed key now _ rest) key now = Freezing.after now (some _) (askedBy rest) ∧
        ∀ f, Freezing.after now (some _) (askedBy rest) = some f → _ → f.Written (armed key now _ rest) key now
      rw [stepped]
      refine ⟨stands, fun f found _ => written f found fun none_ => ?_⟩
      rw [none_] at found
      cases found
      exact made
    | updateThawProgress success completionId => exact absurd (List.mem_cons_self ..) (noProbe success completionId)
    | elsewhere after =>
      have keeps := allowed after rfl
      rw [FreezeCall.exec, standing_keeps keeps] at stands
      rw [FreezeCall.exec, standing_keeps keeps] at written
      exact ⟨stands, fun f found first => written f found fun none_ => (first none_).keeps keeps⟩

theorem Arms.armedBy (clock : earliestDate ≤ now) (arms : Arms key now s calls) (some_ : askedBy calls ≠ []) :
    ArmedBy now (standing s key now) (askedBy calls) (armed key now s calls) key := by
  obtain ⟨-, written⟩ := arms.after clock
  obtain ⟨f, result⟩ := Freezing.after_exists now (standing s key now) some_
  obtain ⟨deadline, count, empties⟩ := written f result fun none_ => absurd none_ some_
  obtain ⟨q, latest, stored_⟩ := Freezing.after_deadline some_ result
  obtain ⟨n, most, counted⟩ := Freezing.after_count some_ result
  refine ⟨⟨q, latest, ?_⟩, ⟨n, most, ?_⟩, ⟨f.empties, empties, ?_, fun lasting => Freezing.after_lasting some_ lasting result⟩⟩
  · rw [deadline, stored_, storable_fin]
  · rw [count, counted, storable_fin]
  · rw [← Freezing.after_carried, result]
    simp

theorem Arms.early {early late : List FreezeCall} (arms : Arms key now s (early ++ late)) :
    Arms key now s early := by
  obtain ⟨valid, noProbe⟩ := arms
  rw [List.map_append] at valid
  exact ⟨(Timed.Machine.valid_append.mp valid).1,
    fun success completionId mem => noProbe success completionId (List.mem_append_left _ mem)⟩

/-- What a call answers is what it leaves stored. -/
def AnswersStored (key : String) (now : ℚ) (s : State) (calls : List FreezeCall) : Prop :=
  ∀ early frozenUntil thawRequestCount emptiesBucket late,
    calls = early ++ .armFreeze frozenUntil thawRequestCount emptiesBucket :: late →
    ∃ q n, IsGreatest (Freezing.deadline '' Freezing.among (standing s key now)
        (askedBy (early ++ [.armFreeze frozenUntil thawRequestCount emptiesBucket]))) q ∧
      IsGreatest (Freezing.count '' Freezing.among (standing s key now)
        (askedBy (early ++ [.armFreeze frozenUntil thawRequestCount emptiesBucket]))) n ∧
      ((armFreeze key frozenUntil thawRequestCount emptiesBucket now).run (armed key now s early)).1 =
        .ok (storable (fin q) (-maxSafeInteger), storable (fin n) 0)

theorem Arms.answers (clock : earliestDate ≤ now) (arms : Arms key now s calls) :
    AnswersStored key now s calls := by
  rintro early frozenUntil thawRequestCount emptiesBucket late rfl
  obtain ⟨stands, -⟩ := arms.early.after clock
  obtain ⟨s', run, -⟩ := armFreeze_standing (armed key now s early) key clock
    ⟨frozenUntil, thawRequestCount, emptiesBucket⟩
  have asks : askedBy (early ++ [.armFreeze frozenUntil thawRequestCount emptiesBucket]) =
      askedBy early ++ [FreezeWrite.standing ⟨frozenUntil, thawRequestCount, emptiesBucket⟩] :=
        List.filterMap_append
  have some_ : askedBy early ++ [FreezeWrite.standing ⟨frozenUntil, thawRequestCount, emptiesBucket⟩] ≠ [] := by
    simp
  rw [stands] at run
  obtain ⟨q, latest, deadline⟩ := Freezing.after_deadline some_ Freezing.after_concat
  obtain ⟨n, most, count⟩ := Freezing.after_count some_ Freezing.after_concat
  rw [asks]
  refine ⟨q, n, latest, most, ?_⟩
  rw [run, deadline, count, storable_fin, storable_fin]

theorem ArmedBy.same {start : Option Freezing} {asked asked' : List Freezing} {s s' : State}
    (first : ArmedBy now start asked s key) (second : ArmedBy now start asked' s' key)
    (same : ∀ a, a ∈ asked' ↔ a ∈ asked) :
    s'.hget key "frozenUntil" now = s.hget key "frozenUntil" now ∧
      s'.hget key "thawRequestCount" now = s.hget key "thawRequestCount" now ∧
      (Freezing.Lasting now start asked → s'.hget key "emptiesBucket" now = s.hget key "emptiesBucket" now) := by
  have members : Freezing.among start asked' = Freezing.among start asked := by
    ext f
    simp only [Freezing.among, Set.mem_ofPred_eq, same]
  obtain ⟨⟨q, latest, deadline⟩, ⟨n, most, count⟩, flag, empties, -, lasting⟩ := first
  obtain ⟨⟨q', latest', deadline'⟩, ⟨n', most', count'⟩, flag', empties', -, lasting'⟩ := second
  rw [members] at latest' most'
  refine ⟨?_, ?_, fun kept => ?_⟩
  · rw [deadline', deadline, latest'.unique latest]
  · rw [count', count, most'.unique most]
  · have kept' : Freezing.Lasting now start asked' := by
      simpa only [Freezing.Lasting, same] using kept
    have agree : flag' = true ↔ flag = true := by
      rw [lasting' kept', lasting kept]
      simp only [Freezing.AskedFor, same]
    rw [empties', empties, Bool.eq_iff_iff.mpr agree]

/-- Arming keeps the largest values whatever the order, and the flag while every freeze that has it stands. -/
theorem arming_commutes (clock : earliestDate ≤ now) (arms : Arms key now s calls) (some_ : askedBy calls ≠ []) :
    ArmedBy now (standing s key now) (askedBy calls) (armed key now s calls) key ∧ AnswersStored key now s calls ∧
      ∀ calls', Arms key now s calls' → (∀ a, a ∈ askedBy calls' ↔ a ∈ askedBy calls) →
        (armed key now s calls').hget key "frozenUntil" now = (armed key now s calls).hget key "frozenUntil" now ∧
        (armed key now s calls').hget key "thawRequestCount" now =
          (armed key now s calls).hget key "thawRequestCount" now ∧
        (Freezing.Lasting now (standing s key now) (askedBy calls) →
          (armed key now s calls').hget key "emptiesBucket" now =
            (armed key now s calls).hget key "emptiesBucket" now) := by
  refine ⟨arms.armedBy clock some_, arms.answers clock, ?_⟩
  intro calls' arms' same
  have some' : askedBy calls' ≠ [] := by
    obtain ⟨a, mem⟩ := List.exists_mem_of_ne_nil _ some_
    exact List.ne_nil_of_mem ((same a).mpr mem)
  exact (arms.armedBy clock some_).same (arms'.armedBy clock some') same

end ArmRuns

theorem arms_of_arms {key : String} {now : ℚ} {s : State} {calls : List FreezeCall}
    (arm : ∀ call ∈ calls, ∃ a, call.asked = some a) : Arms key now s calls := by
  refine ⟨?_, ?_⟩
  · induction calls generalizing s with
    | nil => exact Timed.Machine.valid_nil
    | cons call rest ih =>
      obtain ⟨a, asks⟩ := arm call (List.mem_cons_self ..)
      refine Timed.Machine.valid_cons.mpr ⟨le_rfl, ?_, ih fun other mem => arm other (List.mem_cons_of_mem _ mem)⟩
      rintro after rfl
      cases asks
  · intro success completionId mem
    obtain ⟨a, asks⟩ := arm _ mem
    cases asks

/-- A freeze that emptied its bucket and is over, and one that stands and left it alone. -/
def lapsedAndStanding : List FreezeCall :=
  [.armFreeze 0 1 true, .armFreeze 61000 0 false]

/-- The emptying freeze is lost where it comes first, and kept where it comes last. -/
theorem arming_order_shows : Arms "freeze" 1000 State.fresh lapsedAndStanding ∧
    Arms "freeze" 1000 State.fresh lapsedAndStanding.reverse ∧
    (armed "freeze" 1000 State.fresh lapsedAndStanding).hget "freeze" "emptiesBucket" 1000 = some (.text "0") ∧
    (armed "freeze" 1000 State.fresh lapsedAndStanding.reverse).hget "freeze" "emptiesBucket" 1000 =
      some (.text "1") := by
  refine ⟨arms_of_arms ?_, arms_of_arms ?_, by decide +kernel, by decide +kernel⟩
  · simp [lapsedAndStanding, FreezeCall.asked]
  · simp [lapsedAndStanding, FreezeCall.asked]

/-- Three calls, two of them not finite, in two orders. -/
theorem arming_commutes_thrice :
    let calls : List FreezeCall := [.armFreeze 5000 nan true, .armFreeze posInf 3 false, .armFreeze 2500 1 true]
    ArmedBy 1000 (standing State.fresh "freeze" 1000) (askedBy calls)
      (armed "freeze" 1000 State.fresh calls) "freeze" ∧
      (armed "freeze" 1000 State.fresh calls.reverse).hget "freeze" "emptiesBucket" 1000 =
        (armed "freeze" 1000 State.fresh calls).hget "freeze" "emptiesBucket" 1000 := by
  intro calls
  have arms : Arms "freeze" 1000 State.fresh calls := arms_of_arms (by simp [calls, FreezeCall.asked])
  have arms' : Arms "freeze" 1000 State.fresh calls.reverse := arms_of_arms (by simp [calls, FreezeCall.asked])
  obtain ⟨armedBy, -, others⟩ :=
    arming_commutes (by norm_num [earliestDate]) arms (by simp [calls, askedBy, FreezeCall.asked])
  refine ⟨armedBy, (others _ arms' ?_).2.2 ?_⟩
  · intro a
    rw [askedBy, List.filterMap_reverse, List.mem_reverse, askedBy]
  · refine .inr ⟨?_, ?_⟩
    · decide +kernel
    · decide +kernel

end Dianemo
