/-!
# Cursors

A position in a text: the characters ahead, how many are behind, and the line and column. What
counts as a line break is the reader's choice.
-/

namespace ChartLift.Yaml

/-- A position in a text. -/
structure Cursor where
  /-- The characters ahead. -/
  rest : List Char
  /-- How many characters are behind. -/
  index : Nat
  line : Nat
  column : Nat
  deriving Repr, Inhabited

namespace Cursor

/-- The start of a text. -/
def start (text : List Char) : Cursor := ⟨text, 0, 0, 0⟩

/-- The next character. -/
def peek (c : Cursor) : Option Char := c.rest.head?

/-- The character `n` places ahead. -/
def peekAt (c : Cursor) (n : Nat) : Option Char := c.rest[n]?

/-- Whether nothing is ahead. -/
def atEnd (c : Cursor) : Bool := c.rest.isEmpty

/-- Whether the next character is the given one. -/
def sees (c : Cursor) (x : Char) : Bool := c.peek == some x

/-- Moves past `n` characters of the line. -/
def advance (c : Cursor) (n : Nat) : Cursor :=
  { c with rest := c.rest.drop n, index := c.index + n, column := c.column + n }

/-- The characters ahead up to the first one that does not fit. -/
def ahead (c : Cursor) (fits : Char → Bool) : List Char := c.rest.takeWhile fits

/-- Moves past the characters of the line that fit. -/
def skipWhile (c : Cursor) (fits : Char → Bool) : Cursor := c.advance (c.ahead fits).length

/-- Moves to the next line, past a break of `n` characters. -/
def breakLine (c : Cursor) (n : Nat) : Cursor :=
  { rest := c.rest.drop n, index := c.index + n, line := c.line + 1, column := 0 }

/-- Whether the next characters are these. -/
def startsWith (c : Cursor) (text : List Char) : Bool := text.isPrefixOf c.rest

end Cursor

/-- A space or a tab. -/
def isSpaceOrTab (c : Char) : Bool := c == ' ' || c == '\t'

/-- A letter, a digit, a dash or an underscore, in ASCII. -/
def isWordCharacter (c : Char) : Bool := c.isAlphanum || c == '-' || c == '_'

/-- Characters that structure flow collections. -/
def isFlowIndicator (c : Char) : Bool :=
  c == ',' || c == '[' || c == ']' || c == '\x7b' || c == '\x7d'

/-- Characters of a URI that may also stand in a shorthand tag. -/
def isTagCharacter (c : Char) : Bool :=
  isWordCharacter c || [';', '/', '?', ':', '@', '&', '=', '+', '$', '.', '!', '~', '*', '\'', '(',
    ')', '%'].contains c

/-- The value of a hexadecimal digit. -/
def hexValue? (c : Char) : Option Nat :=
  if c.isDigit then some (c.toNat - 48)
  else if 'a' ≤ c ∧ c ≤ 'f' then some (c.toNat - 87)
  else if 'A' ≤ c ∧ c ≤ 'F' then some (c.toNat - 55)
  else none

/-- The number that hexadecimal digits write. -/
def hexNumber? (digits : List Char) : Option Nat :=
  digits.foldl (fun value c => match value, hexValue? c with
    | some n, some d => some (n * 16 + d)
    | _, _ => none) (some 0)

end ChartLift.Yaml
