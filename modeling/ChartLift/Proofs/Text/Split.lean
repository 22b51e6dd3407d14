import ChartLift.Text.Split
import Mathlib.Tactic.Lemma

/-!
# Splitting and joining

Cutting a text at a character is what the library calls splitting (`splitAt_eq_splitOn`), so parts
that are joined by the character are found again (`splitAt_intercalate`). Cutting at a doubled
character finds the first place where it is doubled (`cutAtDouble_eq_some_iff`); no such place reaches
over another character (`double_infix_append_cons`).
-/

namespace ChartLift.Text

/-- Cutting at a character is cutting at every occurrence of it. -/
lemma splitAt_eq_splitOn (separator : Char) (text : List Char) :
    splitAt separator text = text.splitOn separator := by
  induction text with
  | nil => rfl
  | cons c rest ih =>
    rw [List.splitOn, List.splitOnP_cons_eq_if_modifyHead]
    change splitAt separator rest = rest.splitOnP (· == separator) at ih
    by_cases same : c = separator
    · simp only [splitAt, same, ↓reduceIte, beq_self_eq_true, ih]
    · have other : (c == separator) = false := by simpa using same
      rw [splitAt, if_neg same, other, if_neg Bool.false_ne_true, ih]
      cases h : rest.splitOnP (· == separator) with
      | nil => exact absurd h (List.splitOnP_ne_nil _ _)
      | cons part parts => rfl

/-- A text is cut where a separator stands in it, and on both sides of it as if there were no other
side. -/
lemma splitAt_append_cons (separator : Char) (text rest : List Char) :
    splitAt separator (text ++ separator :: rest) =
      splitAt separator text ++ splitAt separator rest := by
  simp only [splitAt_eq_splitOn, List.splitOn]
  exact List.splitOnP_append_cons text rest (beq_self_eq_true separator)

lemma not_mem_of_mem_splitAt {separator : Char} {text part : List Char}
    (mem : part ∈ splitAt separator text) : separator ∉ part := by
  induction text generalizing part with
  | nil => simp [List.mem_singleton.mp mem]
  | cons c rest ih =>
    by_cases same : c = separator
    · rw [splitAt, if_pos same] at mem
      rcases List.mem_cons.mp mem with rfl | mem
      · exact List.not_mem_nil
      · exact ih mem
    · rw [splitAt, if_neg same] at mem
      split at mem
      · simpa [List.mem_singleton.mp mem] using Ne.symm same
      · rename_i first others cut
        rcases List.mem_cons.mp mem with rfl | mem
        · have here := ih (cut ▸ List.mem_cons_self)
          simp [Ne.symm same, here]
        · exact ih (cut ▸ List.mem_cons_of_mem _ mem)

/-- Parts without the separator are found again between the separators. -/
lemma splitAt_intercalate (separator : Char) {parts : List (List Char)}
    (without : ∀ part ∈ parts, separator ∉ part) (some : parts ≠ []) :
    splitAt separator ([separator].intercalate parts) = parts := by
  rw [splitAt_eq_splitOn, List.splitOn_intercalate separator without some]

/-- A character stands twice in a row at the start of a text or behind its first character. -/
lemma double_infix_cons {c first : Char} {text : List Char} :
    [c, c] <:+: first :: text ↔ first = c ∧ text.head? = some c ∨ [c, c] <:+: text := by
  rw [List.infix_cons_iff]
  refine or_congr_left ?_
  cases text with
  | nil => simp
  | cons second rest => simp [List.cons_prefix_cons, eq_comm]

/-- A character stands twice in a row on one side of another character. -/
lemma double_infix_append_cons {c d : Char} {front rest : List Char} (apart : d ≠ c) :
    [c, c] <:+: front ++ d :: rest ↔ [c, c] <:+: front ∨ [c, c] <:+: rest := by
  induction front with
  | nil =>
    have none : ¬ [c, c] <:+: ([] : List Char) := fun inside => by simpa using inside.length_le
    rw [List.nil_append, double_infix_cons, or_iff_right fun both => apart both.1,
      or_iff_right none]
  | cons first front ih =>
    have head : (front ++ d :: rest).head? = some c ↔ front.head? = some c := by
      cases front with
      | nil => simpa using apart
      | cons second front => exact Iff.rfl
    rw [List.cons_append, double_infix_cons, double_infix_cons, ih, head, or_assoc]

/-- Nothing is doubled in front of a text by characters that are others. -/
lemma double_infix_append_left {c : Char} {front rest : List Char} (without : c ∉ front) :
    [c, c] <:+: front ++ rest ↔ [c, c] <:+: rest := by
  induction front with
  | nil => exact Iff.rfl
  | cons first front ih =>
    obtain ⟨apart, without⟩ := List.ne_and_not_mem_of_not_mem_cons without
    rw [List.cons_append, double_infix_cons, ih without,
      or_iff_right fun both => apart both.1.symm]

/-- Nothing is doubled behind a text by characters that are others. -/
lemma double_infix_append_right {c : Char} {front rest : List Char} (without : c ∉ rest) :
    [c, c] <:+: front ++ rest ↔ [c, c] <:+: front := by
  have reversed := @double_infix_append_left c rest.reverse front.reverse
    fun mem => without (List.mem_reverse.mp mem)
  rwa [← List.reverse_append, show [c, c] = [c, c].reverse from rfl, List.reverse_infix,
    List.reverse_infix] at reversed

/-- A text of fewer than two characters has none twice in a row. -/
lemma not_double_infix_of_short {c : Char} {text : List Char}
    (short : ∀ first second rest, text = first :: second :: rest → False) : ¬ [c, c] <:+: text := by
  intro inside
  have long := inside.length_le
  cases text with
  | nil => simp at long
  | cons first text =>
    cases text with
    | nil => simp at long
    | cons second rest => exact short first second rest rfl

/-- A text is cut where a character stands twice in a row for the first time. -/
lemma cutAtDouble_eq_some_iff {c : Char} {text before behind : List Char} :
    cutAtDouble c text = some (before, behind) ↔
      text = before ++ c :: c :: behind ∧ ¬ [c, c] <:+: before ++ [c] := by
  fun_induction cutAtDouble c text generalizing before with
  | case1 first second rest here =>
    obtain ⟨rfl, rfl⟩ := here
    constructor
    · intro h
      cases h
      exact ⟨rfl, fun inside => by simpa using inside.length_le⟩
    · rintro ⟨split, clear⟩
      cases before with
      | nil =>
        cases split
        rfl
      | cons b before =>
        obtain ⟨rfl, tail⟩ := List.cons.inj split
        refine absurd (double_infix_cons.mpr (.inl ⟨rfl, ?_⟩)) clear
        cases before with
        | nil => rfl
        | cons b before => exact congrArg some (List.cons.inj tail).1.symm
  | case2 first second rest apart ih =>
    constructor
    · intro h
      obtain ⟨⟨inner, _⟩, cut, h⟩ := Option.map_eq_some_iff.mp h
      cases h
      obtain ⟨split, clear⟩ := ih.mp cut
      refine ⟨by rw [split]; rfl, ?_⟩
      rw [List.cons_append, double_infix_cons]
      rintro (⟨same, next⟩ | inside)
      · have : second = c := by
          cases inner with
          | nil => exact (List.cons.inj split).1
          | cons b inner => exact (List.cons.inj split).1.trans (Option.some.inj next)
        exact apart ⟨same, this⟩
      · exact clear inside
    · rintro ⟨split, clear⟩
      cases before with
      | nil =>
        obtain ⟨rfl, tail⟩ := List.cons.inj split
        exact absurd ⟨rfl, (List.cons.inj tail).1⟩ apart
      | cons b inner =>
        obtain ⟨rfl, tail⟩ := List.cons.inj split
        have cut := ih.mpr ⟨tail, fun inside => clear (double_infix_cons.mpr (.inr inside))⟩
        rw [cut]
        rfl
  | case3 text short =>
    refine iff_of_false (Option.some_ne_none _).symm ?_
    rintro ⟨split, -⟩
    exact not_double_infix_of_short short ⟨before, behind, by rw [split, List.append_assoc]; rfl⟩

/-- A text is not cut if no character stands twice in a row. -/
lemma cutAtDouble_eq_none_iff {c : Char} {text : List Char} :
    cutAtDouble c text = none ↔ ¬ [c, c] <:+: text := by
  fun_induction cutAtDouble c text with
  | case1 first second rest here =>
    obtain ⟨rfl, rfl⟩ := here
    exact iff_of_false (Option.some_ne_none _) (not_not_intro ⟨[], rest, rfl⟩)
  | case2 first second rest apart ih =>
    rw [Option.map_eq_none_iff, ih, @double_infix_cons c first, not_or]
    constructor
    · exact fun clear => ⟨fun both => apart ⟨both.1, Option.some.inj both.2⟩, clear⟩
    · exact And.right
  | case3 text short => exact iff_of_true rfl (not_double_infix_of_short short)

end ChartLift.Text
