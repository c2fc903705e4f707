import Mathlib

namespace Precedence

variable {α : Type*}

/-- Sorting needs its order to be one on the members of the list only. -/
theorem pairwise_mergeSort_of_mem {le : α → α → Bool} {l : List α}
    (trans : ∀ a ∈ l, ∀ b ∈ l, ∀ c ∈ l, le a b = true → le b c = true → le a c = true)
    (total : ∀ a ∈ l, ∀ b ∈ l, (le a b || le b a) = true) : (l.mergeSort le).Pairwise fun a b => le a b = true := by
  have same : (l.attach.mergeSort fun a b => le a.1 b.1).map Subtype.val = l.mergeSort le := by
    have mapped : (l.attach.mergeSort fun a b => le a.1 b.1).map Subtype.val =
        (l.attach.map Subtype.val).mergeSort le :=
      List.map_mergeSort fun a _ b _ => rfl
    rw [mapped, List.attach_map_subtype_val]
  rw [← same, List.pairwise_map]
  refine List.pairwise_mergeSort (fun a b c => ?_) (fun a b => ?_) _
  · exact trans a.1 a.2 b.1 b.2 c.1 c.2
  · exact total a.1 a.2 b.1 b.2

/-- A strict order on the members of a list has a first one among those with a property. -/
theorem exists_first {before : α → α → Prop} {P : α → Prop} {l : List α}
    (trans : ∀ a ∈ l, ∀ b ∈ l, ∀ c ∈ l, before a b → before b c → before a c)
    (irrefl : ∀ a ∈ l, ¬ before a a) (some_ : ∃ a ∈ l, P a) :
    ∃ a ∈ l, P a ∧ ∀ b ∈ l, P b → ¬ before b a := by
  induction l with
  | nil => exact absurd some_ (by simp)
  | cons head rest ih =>
    by_cases later : ∃ a ∈ rest, P a
    · obtain ⟨a, mem, has, first⟩ := ih
        (fun a ha b hb c hc => trans a (List.mem_cons_of_mem _ ha) b (List.mem_cons_of_mem _ hb) c (List.mem_cons_of_mem _ hc))
        (fun a ha => irrefl a (List.mem_cons_of_mem _ ha)) later
      by_cases ahead : P head ∧ before head a
      · refine ⟨head, List.mem_cons_self .., ahead.1, ?_⟩
        rintro b hb hasB sooner
        rcases List.mem_cons.mp hb with rfl | hb
        · exact irrefl b (List.mem_cons_self ..) sooner
        · exact first b hb hasB (trans b (List.mem_cons_of_mem _ hb) head (List.mem_cons_self ..) a
            (List.mem_cons_of_mem _ mem) sooner ahead.2)
      · refine ⟨a, List.mem_cons_of_mem _ mem, has, ?_⟩
        rintro b hb hasB sooner
        rcases List.mem_cons.mp hb with rfl | hb
        · exact ahead ⟨hasB, sooner⟩
        · exact first b hb hasB sooner
    · obtain ⟨a, mem, has⟩ := some_
      rcases List.mem_cons.mp mem with rfl | mem
      · refine ⟨a, List.mem_cons_self .., has, ?_⟩
        rintro b hb hasB sooner
        rcases List.mem_cons.mp hb with rfl | hb
        · exact irrefl b (List.mem_cons_self ..) sooner
        · exact later ⟨b, hb, hasB⟩
      · exact absurd ⟨a, mem, has⟩ later

section Filter

variable {r : α → α → Prop} [DecidableRel r] {p : α → Bool}

theorem filter_orderedInsert_neg {a : α} (out : p a = false) (l : List α) :
    (l.orderedInsert r a).filter p = l.filter p := by
  induction l with
  | nil => simp [out]
  | cons b rest ih =>
    rw [List.orderedInsert_cons]
    split
    · rw [List.filter_cons_of_neg (by simp [out])]
    · rw [List.filter_cons, List.filter_cons, ih]

theorem filter_orderedInsert [IsTrans α r] {a : α} (kept : p a = true) {l : List α} (sorted : l.Pairwise r) :
    (l.orderedInsert r a).filter p = (l.filter p).orderedInsert r a := by
  induction l with
  | nil => simp [kept]
  | cons b rest ih =>
    obtain ⟨first, sorted⟩ := List.pairwise_cons.mp sorted
    rw [List.orderedInsert_cons]
    by_cases before : r a b
    · rw [if_pos before, List.filter_cons_of_pos kept]
      cases there : (b :: rest).filter p with
      | nil => rfl
      | cons c more =>
        have member : c ∈ (b :: rest).filter p := by simp [there]
        have ahead : r a c := by
          rcases List.mem_cons.mp (List.mem_filter.mp member).1 with rfl | later
          · exact before
          · exact IsTrans.trans a b c before (first c later)
        rw [List.orderedInsert_cons_of_le r more ahead]
    · rw [if_neg before]
      by_cases here : p b = true
      · rw [List.filter_cons_of_pos here, List.filter_cons_of_pos here, ih sorted,
          List.orderedInsert_of_not_le r _ before]
      · rw [List.filter_cons_of_neg here, List.filter_cons_of_neg here, ih sorted]

/-- Sorting and leaving some out can be done in either order. -/
theorem filter_insertionSort [Std.Total r] [IsTrans α r] (l : List α) :
    (l.insertionSort r).filter p = (l.filter p).insertionSort r := by
  induction l with
  | nil => rfl
  | cons a rest ih =>
    rw [List.insertionSort_cons]
    by_cases kept : p a = true
    · rw [filter_orderedInsert kept (List.pairwise_insertionSort r rest), ih, List.filter_cons_of_pos kept,
        List.insertionSort_cons]
    · rw [filter_orderedInsert_neg (by simpa using kept), ih, List.filter_cons_of_neg kept]

/-- The first of a sorted list with a property comes before all the others with it. -/
theorem find?_insertionSort [Std.Total r] [IsTrans α r] {l : List α} {a : α}
    (found : (l.insertionSort r).find? p = some a) : ∀ b ∈ l, p b = true → r a b := by
  obtain ⟨has, early, late, sorted, none_⟩ := List.find?_eq_some_iff_append.mp found
  intro b member hasB
  have pairwise := List.pairwise_insertionSort r l
  rw [← List.mem_insertionSort r, sorted, List.mem_append, List.mem_cons] at member
  rw [sorted] at pairwise
  rcases member with before | rfl | after
  · have lacks : p b = false := by simpa using none_ b before
    rw [lacks] at hasB
    cases hasB
  · exact (Std.Total.total b b).elim id id
  · exact List.rel_of_pairwise_cons (List.pairwise_append.mp pairwise).2.1 after

end Filter

end Precedence
