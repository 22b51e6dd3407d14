/-!
# Splitting texts

Cutting a text at a character, or at the first doubled one.
-/

namespace ChartLift.Text

/-- The parts of a text between the occurrences of a separator. -/
def splitAt (separator : Char) : List Char → List (List Char)
  | [] => [[]]
  | c :: rest =>
    if c = separator then [] :: splitAt separator rest
    else
      match splitAt separator rest with
      | [] => [[c]]
      | part :: parts => (c :: part) :: parts

/-- The text before and behind the first place where a character stands twice in a row. -/
def cutAtDouble (c : Char) : List Char → Option (List Char × List Char)
  | first :: second :: rest =>
    if first = c ∧ second = c then some ([], rest)
    else (cutAtDouble c (second :: rest)).map fun (before, behind) => (first :: before, behind)
  | _ => none

/-- What follows a cut is shorter than the text by the two characters at least. -/
theorem cutAtDouble_length {c : Char} {text before behind : List Char}
    (h : cutAtDouble c text = some (before, behind)) :
    before.length + behind.length + 2 = text.length := by
  fun_induction cutAtDouble c text generalizing before with
  | case1 rest first second hc =>
    simp only [Option.some.injEq, Prod.mk.injEq] at h
    simp [← h.1, ← h.2]
  | case2 rest first second hc ih =>
    simp only [Option.map_eq_some_iff, Prod.exists, Prod.mk.injEq] at h
    obtain ⟨inner, tail, hcut, hb, ht⟩ := h
    have := @ih inner (by rw [hcut, ht])
    simp only [← hb, List.length_cons] at this ⊢
    omega
  | case3 => simp at h

end ChartLift.Text
