import ChartLift.Text.Ranges

/-!
# Blank characters

The characters with the Unicode property White_Space, and trimming by them.
-/

namespace ChartLift.Text

/-- Characters with the property White_Space. -/
def blankRanges : Ranges := [
  (9, 13), (32, 32), (133, 133), (160, 160), (5760, 5760), (8192, 8202), (8232, 8233),
  (8239, 8239), (8287, 8287), (12288, 12288)]

/-- Whitespace, in any script. -/
def isBlank (c : Char) : Bool :=
  blankRanges.contains c

/-- Every character that counts as whitespace in ASCII source text is blank. -/
theorem isBlank_of_isWhitespace {c : Char} (h : c.isWhitespace = true) : isBlank c = true := by
  simp only [Char.isWhitespace, Bool.or_eq_true, decide_eq_true_eq] at h
  rcases h with ((h | h) | h) | h <;> subst h <;> decide

/-- A text without the blanks it begins with. -/
def trimLeft (text : List Char) : List Char :=
  text.dropWhile isBlank

/-- A text without the blanks it ends with. -/
def trimRight (text : List Char) : List Char :=
  (text.reverse.dropWhile isBlank).reverse

/-- A text without the blanks around it. -/
def trim (text : List Char) : List Char :=
  trimRight (trimLeft text)

end ChartLift.Text
