import Mathlib.Data.List.Basic
import Mathlib.Data.String.Basic

namespace Segments

/-- The pieces of a text between its separators. -/
def split (sep : Char) (text : String) : List String := (text.toList.splitOn sep).map String.ofList

/-- A text that is one piece. -/
def Plain (sep : Char) (text : String) : Prop := sep ∉ text.toList

instance (sep : Char) (text : String) : Decidable (Plain sep text) :=
  inferInstanceAs (Decidable (sep ∉ text.toList))

variable {sep : Char} {a b word : String}

theorem split_ne_nil (sep : Char) (text : String) : split sep text ≠ [] := by
  simp only [split, ne_eq, List.map_eq_nil_iff, List.splitOn_ne_nil, not_false_eq_true]

theorem split_plain (plain : Plain sep a) : split sep a = [a] := by
  rw [split, List.splitOn_eq_singleton plain, List.map_singleton, String.ofList_toList]

theorem split_append (sep : Char) (a b : String) :
    split sep (a ++ String.singleton sep ++ b) = split sep a ++ split sep b := by
  have text : (a ++ String.singleton sep ++ b).toList = a.toList ++ sep :: b.toList := by simp
  rw [split, text, List.splitOn_append_cons_self, List.map_append, split, split]

/-- Joining the pieces gives the text back. -/
theorem intercalate_split (sep : Char) (text : String) :
    (String.singleton sep).intercalate (split sep text) = text := by
  rw [← String.toList_inj, String.toList_intercalate, split, List.map_map]
  have pieces : String.toList ∘ String.ofList = id := funext fun _ => String.toList_ofList
  rw [pieces, List.map_id, String.toList_singleton, List.intercalate_splitOn]

/-- A piece of a list is without the separator, and all of it is in the list. -/
theorem of_mem_splitOn {α : Type} [DecidableEq α] {sep : α} :
    ∀ {text : List α}, ∀ piece ∈ text.splitOn sep, sep ∉ piece ∧ piece ⊆ text := by
  intro text
  induction text with
  | nil => simp
  | cons c rest ih =>
    intro piece member
    rw [List.splitOn_cons_eq_if_modifyHead] at member
    by_cases here : (c == sep) = true
    · rw [if_pos here] at member
      rcases List.mem_cons.mp member with rfl | later
      · exact ⟨List.not_mem_nil, List.nil_subset _⟩
      · exact ⟨(ih piece later).1, List.subset_cons_of_subset c (ih piece later).2⟩
    · rw [if_neg here] at member
      cases pieces : rest.splitOn sep with
      | nil => exact absurd pieces (List.splitOn_ne_nil sep rest)
      | cons first others =>
        rw [pieces, List.modifyHead_cons] at member
        rcases List.mem_cons.mp member with rfl | later
        · have apart : sep ≠ c := fun equal => here (by simp [equal])
          have free := ih first (by rw [pieces]; exact List.mem_cons_self)
          exact ⟨by simp [apart, free.1], List.cons_subset_cons c free.2⟩
        · have free := ih piece (by rw [pieces]; exact List.mem_cons_of_mem _ later)
          exact ⟨free.1, List.subset_cons_of_subset c free.2⟩

theorem plain_of_mem_split {piece : String} (member : piece ∈ split sep a) : Plain sep piece := by
  obtain ⟨chars, among, rfl⟩ := List.mem_map.mp member
  rw [Plain, String.toList_ofList]
  exact (of_mem_splitOn chars among).1

theorem mem_of_mem_split {piece : String} {c : Char} (member : piece ∈ split sep a) (within : c ∈ piece.toList) :
    c ∈ a.toList := by
  obtain ⟨chars, among, rfl⟩ := List.mem_map.mp member
  rw [String.toList_ofList] at within
  exact (of_mem_splitOn chars among).2 within

theorem mem_of_mem_intercalate {text : String} {c : Char} :
    ∀ {pieces : List String}, c ∈ (text.intercalate pieces).toList → c ∈ text.toList ∨
      ∃ piece ∈ pieces, c ∈ piece.toList := by
  intro pieces
  induction pieces with
  | nil => exact fun member => absurd member List.not_mem_nil
  | cons piece rest ih =>
    intro member
    cases rest with
    | nil =>
      rw [String.intercalate_singleton] at member
      exact .inr ⟨piece, List.mem_cons_self, member⟩
    | cons next others =>
      rw [String.intercalate_cons_cons, String.toList_append, String.toList_append] at member
      rcases List.mem_append.mp member with front | later
      · rcases List.mem_append.mp front with here | between
        · exact .inr ⟨piece, List.mem_cons_self, here⟩
        · exact .inl between
      · rcases ih later with between | ⟨other, among, within⟩
        · exact .inl between
        · exact .inr ⟨other, List.mem_cons_of_mem _ among, within⟩

theorem split_injective (sep : Char) : Function.Injective (split sep) :=
  Function.LeftInverse.injective (intercalate_split sep)

theorem split_intercalate {pieces : List String} (plain : ∀ piece ∈ pieces, Plain sep piece) (some : pieces ≠ []) :
    split sep ((String.singleton sep).intercalate pieces) = pieces := by
  have apart : ∀ piece ∈ pieces.map String.toList, sep ∉ piece := by
    intro piece member
    obtain ⟨text, among, rfl⟩ := List.mem_map.mp member
    exact plain text among
  rw [split, String.toList_intercalate, String.toList_singleton,
    List.splitOn_intercalate sep apart (by simpa using some), List.map_map]
  have texts : String.ofList ∘ String.toList = id := funext fun _ => String.ofList_toList
  rw [texts, List.map_id]

theorem eq_of_split_eq_append {text last : String} {front : List String} (some : front ≠ [])
    (whole : split sep text = front ++ [last]) :
    text = (String.singleton sep).intercalate front ++ String.singleton sep ++ last := by
  rw [← intercalate_split sep text, whole, String.intercalate_append_of_ne_nil some (List.cons_ne_nil _ _),
    String.intercalate_singleton]

/-! ### Numerals -/

theorem repr_digits (n : ℕ) : ∀ c ∈ (toString n).toList, c.isDigit = true := by
  intro c member
  have digits : (toString n).toList = Nat.toDigits 10 n := by
    simp
  rw [digits] at member
  exact Nat.isDigit_of_mem_toDigits (by omega) (by omega) member

theorem repr_plain (n : ℕ) : Plain ':' (toString n) := fun member => absurd (repr_digits n _ member) (by decide)

theorem repr_ne (n : ℕ) {c : Char} (letter : c.isDigit = false) (member : c ∈ word.toList) : toString n ≠ word := by
  rintro rfl
  rw [repr_digits n c member] at letter
  cases letter

end Segments
