import ChartLift.Text.Blank
import ChartLift.Text.Letter

/-!
# Text patterns

Regular expressions over characters, and whether a text contains a match of one. A pattern is
followed from a set of positions in the text at once, so repetitions end when they lead to no new
position.
-/

namespace ChartLift

/-- What a single character may be. -/
inductive CharSet where
  | range (low high : Char)
  | digit
  | blank
  /-- Letters, numerals and the underscore. -/
  | word
  | outside (sets : List CharSet)
  deriving Repr, Inhabited

/-- A regular expression. -/
inductive TextPattern where
  | one (sets : List CharSet)
  | start
  | finish
  /-- Where a word begins or ends, or where none does. -/
  | border (present : Bool)
  | choice (alternatives : List (List TextPattern))
  | repeated (pattern : TextPattern) (least : Nat) (most : Option Nat)
  deriving Repr, Inhabited

/-- A position in a text: the character before it and all characters behind it. -/
structure TextPosition where
  before : Option Char
  behind : List Char

/-- Characters of words. -/
def isWordCharacter (c : Char) : Bool := Text.isLetterOrNumeral c || c == '_'

mutual

/-- Whether a character is in a set. -/
def CharSet.contains (c : Char) : CharSet → Bool
  | .range low high => decide (low ≤ c) && decide (c ≤ high)
  | .digit => c.isDigit
  | .blank => Text.isBlank c
  | .word => isWordCharacter c
  | .outside sets => !CharSet.anyContains c sets

/-- Whether a character is in one of some sets. -/
def CharSet.anyContains (c : Char) : List CharSet → Bool
  | [] => false
  | set :: sets => set.contains c || CharSet.anyContains c sets

end

namespace TextPattern

/-- Positions of one text without repetitions. -/
def distinct (positions : List TextPosition) : List TextPosition :=
  positions.foldl (fun seen position =>
    if seen.any (·.behind.length == position.behind.length) then seen else position :: seen) []

/-- Positions after at most `count` more steps. -/
def atMost (step : List TextPosition → List TextPosition) : Nat → List TextPosition → List TextPosition
  | 0, positions => positions
  | count + 1, positions => distinct (positions ++ atMost step count (step positions))

/-- Positions after `count` steps. -/
def exactly (step : List TextPosition → List TextPosition) : Nat → List TextPosition → List TextPosition
  | 0, positions => positions
  | count + 1, positions => exactly step count (step positions)

/-- How many steps can lead to new positions. -/
def room (positions : List TextPosition) : Nat :=
  positions.foldl (fun most position => max most position.behind.length) 0

/-- Whether a position stands between a character of a word and none. -/
def isBorder (position : TextPosition) : Bool :=
  position.before.any isWordCharacter != position.behind.head?.any isWordCharacter

mutual

/-- The positions that a pattern leads to. -/
def after (positions : List TextPosition) : TextPattern → List TextPosition
  | .one sets => positions.filterMap fun position => match position.behind with
    | [] => none
    | c :: rest => if CharSet.anyContains c sets then some ⟨some c, rest⟩ else none
  | .start => positions.filter (·.before.isNone)
  | .finish => positions.filter (·.behind.isEmpty)
  | .border present => positions.filter fun position => isBorder position == present
  | .choice alternatives => distinct (afterAny positions alternatives)
  | .repeated pattern least most =>
    let step (positions : List TextPosition) : List TextPosition := after positions pattern
    let first := exactly step least positions
    atMost step (most.elim (room first) (· - least)) first

/-- The positions that alternatives lead to. -/
def afterAny (positions : List TextPosition) : List (List TextPattern) → List TextPosition
  | [] => []
  | patterns :: others => afterAll positions patterns ++ afterAny positions others

/-- The positions that patterns lead to, one after the other. -/
def afterAll (positions : List TextPosition) : List TextPattern → List TextPosition
  | [] => positions
  | pattern :: others => afterAll (after positions pattern) others

end

/-- The positions of a text behind its first one. -/
def laterPositions : List Char → List TextPosition
  | [] => []
  | c :: rest => ⟨some c, rest⟩ :: laterPositions rest

/-- Whether a text contains a match. -/
def isWithin (pattern : TextPattern) (text : List Char) : Bool :=
  !(after (⟨none, text⟩ :: laterPositions text) pattern).isEmpty

end TextPattern

end ChartLift
