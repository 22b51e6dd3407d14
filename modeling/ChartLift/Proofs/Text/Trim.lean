import ChartLift.Text.Blank
import Mathlib.Data.List.DropRight
import Mathlib.Tactic.Lemma

/-!
# Cutting and trimming

A text is cut where a property of its characters ends (`cut_append`). Trimming finds the one part of
a text that has only blanks around it and neither begins nor ends with a blank (`trim_eq_iff`).
-/

namespace ChartLift.Text

/-- A text is cut where a property of characters ends. -/
lemma cut_append {p : Char → Bool} {front rest : List Char} (inside : ∀ c ∈ front, p c = true)
    (stop : ∀ c ∈ rest.head?, p c = false) :
    (front ++ rest).takeWhile p = front ∧ (front ++ rest).dropWhile p = rest := by
  rw [List.takeWhile_append_of_pos inside, List.dropWhile_append_of_pos inside]
  cases rest with
  | nil => exact ⟨List.append_nil front, rfl⟩
  | cons c rest =>
    have here : ¬ p c = true := Bool.eq_false_iff.mp (stop c rfl)
    rw [List.takeWhile_cons_of_neg here, List.dropWhile_cons_of_neg here]
    exact ⟨List.append_nil front, rfl⟩

/-- No visible ASCII character is blank. -/
lemma isBlank_eq_false {c : Char} (above : 32 < c.toNat) (below : c.toNat < 127) :
    isBlank c = false := by
  simp only [isBlank, Ranges.contains, blankRanges, Ranges.holds]
  grind

/-- That a text is another one with blanks around it, and this one neither begins nor ends with a
blank. -/
structure Trims (text core : List Char) : Prop where
  around : ∃ left right, text = left ++ (core ++ right) ∧
    (∀ c ∈ left, isBlank c = true) ∧ ∀ c ∈ right, isBlank c = true
  first : ∀ c ∈ core.head?, isBlank c = false
  last : ∀ c ∈ core.getLast?, isBlank c = false

lemma trims_trim (text : List Char) : Trims text (trim text) := by
  have behind : trim text ++ (trimLeft text).rtakeWhile isBlank = trimLeft text :=
    List.rdropWhile_append_rtakeWhile
  have split : text = text.takeWhile isBlank ++ trimLeft text :=
    List.takeWhile_append_dropWhile.symm
  refine ⟨⟨_, _, behind ▸ split, fun c mem => List.mem_takeWhile_imp mem,
    fun c mem => List.mem_rtakeWhile_imp mem⟩, fun c mem => ?_, fun c mem => ?_⟩
  · have begins : (trimLeft text).head? = some c := by
      rw [← behind, List.head?_append, mem]
      rfl
    have := List.head?_dropWhile_not isBlank text
    rw [← trimLeft, begins] at this
    exact this
  · have some : trim text ≠ [] := by
      intro none
      rw [none] at mem
      cases mem
    rw [List.getLast?_eq_some_getLast some] at mem
    cases mem
    exact Bool.eq_false_iff.mpr (List.rdropWhile_last_not isBlank (trimLeft text) some)

lemma trim_eq_of_trims {text core : List Char} (trims : Trims text core) : trim text = core := by
  obtain ⟨⟨left, right, rfl, blank_left, blank_right⟩, first, last⟩ := trims
  rw [trim, trimLeft, List.dropWhile_append_of_pos blank_left]
  cases core with
  | nil =>
    rw [List.nil_append, List.dropWhile_eq_nil_iff.mpr blank_right]
    rfl
  | cons c rest =>
    have here : isBlank c ≠ true := Bool.eq_false_iff.mp (first c rfl)
    rw [List.cons_append, List.dropWhile_cons_of_neg here, ← List.cons_append, trimRight,
      List.reverse_append, List.dropWhile_append_of_pos (by simpa using blank_right)]
    apply List.rdropWhile_eq_self_iff.mpr
    intro some
    exact Bool.eq_false_iff.mp (last _ (List.getLast?_eq_some_getLast some))

/-- A text that neither begins nor ends with a blank has no blanks around it. -/
lemma trims_self {text : List Char} (first : ∀ c ∈ text.head?, isBlank c = false)
    (last : ∀ c ∈ text.getLast?, isBlank c = false) : Trims text text :=
  ⟨⟨[], [], by simp, by simp, by simp⟩, first, last⟩

/-- Trimming finds the part between the blanks. -/
lemma trim_eq_iff {text core : List Char} : trim text = core ↔ Trims text core := by
  constructor
  · rintro rfl
    exact trims_trim text
  · exact trim_eq_of_trims

end ChartLift.Text
