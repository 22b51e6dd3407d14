import ChartLift.Yaml.Content.Resolution

/-!
# Scalars in block style

How a text stands as a scalar: plain where nothing in it means anything, between quotes where it
would read as something else, and line by line where it has several lines.
-/

namespace ChartLift.Yaml.Block

open Content (isZeroPadded plainMeaning)

/-- Characters that end a line. -/
def isBreak (c : Char) : Bool :=
  c == '\n' || c == '\r' || c == '\x85' || c == '\u2028' || c == '\u2029'

/-- Characters that may stand in a text as they are. -/
def isPrintable (c : Char) : Bool :=
  let n := c.toNat
  n == 0x0A || (0x20 ≤ n && n ≤ 0x7E) || (0xA0 ≤ n && n ≤ 0xFFFD && n != 0xFEFF) || 0x10000 ≤ n

/-- Whether a word ends where this character stands, or the text does. -/
def endsWord : Option Char → Bool
  | none => true
  | some c => c == ' ' || c == '\t' || c == '\x00' || isBreak c

/-- Whether one character of a kind is followed by one of another. -/
def someAdjacent (first second : Char → Bool) : List Char → Bool
  | a :: b :: rest => (first a && second b) || someAdjacent first second (b :: rest)
  | _ => false

/-- Whether a text somewhere holds the end of a key or the start of a comment. -/
def holdsIndicator : List Char → Bool
  | [] => false
  | c :: rest =>
    (c == ':' && endsWord rest.head?) || (endsWord (some c) && rest.head? == some '#')
      || holdsIndicator rest

/-- Whether a text begins like something other than a plain scalar. -/
def beginsMarked (text : List Char) : Bool :=
  match text with
  | [] => false
  | c :: rest =>
    "#,[]\x7b\x7d&*!|>'\"%@\x60".toList.contains c
      || ((c == '?' || c == '-') && endsWord rest.head?)
      || ['-', '-', '-'].isPrefixOf text || ['.', '.', '.'].isPrefixOf text

/-- The first and the last character of a text, where it has any. -/
def ends (text : List Char) : List Char :=
  text.head?.toList ++ text.getLast?.toList

/-- Whether all characters may stand as they are, and no line ends in a space. -/
def isClean (text : List Char) : Bool :=
  text.all isPrintable && !someAdjacent (· == ' ') isBreak text

/-- Whether a text may stand without quotes. -/
def allowsPlain (text : List Char) : Bool :=
  isClean text && !text.any isBreak && !(ends text).contains ' ' && !beginsMarked text
    && !holdsIndicator text

/-- Whether a text may stand between single quotes: no line of it begins with a space. -/
def allowsSingle (text : List Char) : Bool :=
  isClean text && !someAdjacent isBreak (· == ' ') text

/-- Whether a text may stand line by line. -/
def allowsLiteral (text : List Char) : Bool :=
  isClean text && text.getLast? != some ' '

/-- Whether a text, written plain, would read as something else than a text or is close to it. -/
def needsQuotes (text : String) : Bool :=
  plainMeaning text != .text || isZeroPadded text.toList

/-- How a scalar stands. -/
inductive Style where
  | plain
  | single
  | double
  | literal
  deriving DecidableEq, Repr

/-- The style of a text. -/
def styleOf (text : String) : Style :=
  let chars := text.toList
  if chars.contains '\n' then (if allowsLiteral chars then .literal else .double)
  else if allowsPlain chars && !needsQuotes text then .plain
  else if allowsSingle chars then .single
  else .double

/-- Blanks in front of a line. -/
def margin (indent : Nat) : List Char := List.replicate indent ' '

/-- A text of several lines; `fresh` tells that a line begins, which takes a margin unless it is
empty. -/
def lines (indent : Nat) (fresh : Bool) : List Char → List Char
  | [] => []
  | c :: rest =>
    if isBreak c then c :: lines indent true rest
    else if fresh then margin indent ++ c :: lines indent false rest
    else c :: lines indent false rest

/-- A text between single quotes; a quote is written twice. -/
def single (indent : Nat) (text : List Char) : List Char :=
  let inner := lines indent false (text.flatMap fun c => if c = '\'' then [c, c] else [c])
  let tail := if text.getLast?.any isBreak then margin indent else []
  '\'' :: (inner ++ tail ++ ['\''])

/-- A number in hexadecimal capitals, with leading zeros up to a width. -/
def hexCapitals (width n : Nat) : List Char :=
  let digits := (Nat.toDigits 16 n).map Char.toUpper
  List.replicate (width - digits.length) '0' ++ digits

/-- A character as an escape. -/
def escape (c : Char) : List Char :=
  let n := c.toNat
  let short : Option Char :=
    [(0x00, '0'), (0x07, 'a'), (0x08, 'b'), (0x09, 't'), (0x0A, 'n'), (0x0B, 'v'), (0x0C, 'f'),
      (0x0D, 'r'), (0x1B, 'e'), (0x22, '"'), (0x5C, '\\'), (0x85, 'N'), (0x2028, 'L'),
      (0x2029, 'P')].lookup n
  match short with
  | some letter => ['\\', letter]
  | none =>
    if n ≤ 0xFF then '\\' :: 'x' :: hexCapitals 2 n
    else if n ≤ 0xFFFF then '\\' :: 'u' :: hexCapitals 4 n
    else '\\' :: 'U' :: hexCapitals 8 n

/-- A text between double quotes, on one line. -/
def double (text : List Char) : List Char :=
  let write (c : Char) : List Char :=
    if !isPrintable c || isBreak c || c == '"' || c == '\\' then escape c else [c]
  '"' :: (text.flatMap write ++ ['"'])

/-- The marks of a text written line by line: its margin where the text begins with a blank or an
empty line, and what becomes of the line ends behind it. -/
def literalMarks (text : List Char) : List Char :=
  let marginMark := if text.head?.any fun c => c == ' ' || isBreak c then ['2'] else []
  let endMark := match text.reverse with
    | [] => ['-']
    | last :: before =>
      if !isBreak last then ['-']
      else if before.head?.all isBreak then ['+']
      else []
  marginMark ++ endMark

/-- A text with the end of its line, where it is not the end of a line itself. -/
def endLine (written : List Char) : List Char :=
  if written.getLast?.any isBreak then written else written ++ ['\n']

/-- A text as a scalar with the end of its line; `indent` is the margin of its further lines. -/
def scalar (indent : Nat) (text : String) : List Char :=
  let chars := text.toList
  match styleOf text with
  | .plain => chars ++ ['\n']
  | .single => single indent chars ++ ['\n']
  | .double => double chars ++ ['\n']
  | .literal => '|' :: (literalMarks chars ++ '\n' :: endLine (lines indent true chars))

end ChartLift.Yaml.Block
