import ChartLift.Yaml.Cursor
import ChartLift.Yaml.Token

/-!
# State of the content reader

How far a text has been cut into tokens: the tokens that are not certain yet, the indentation of the
open block collections, and, for each level of flow collections, the place where a key may have
begun.

A key is recognised late, at its `:`. Until then its place is kept, and no token from there on is
certain. A key has to stand on one line and within 1024 characters.
-/

namespace ChartLift.Yaml.Content

/-- A place where a key may have begun. -/
structure PendingKey where
  /-- Whether the text is malformed unless it is a key. -/
  required : Bool
  /-- The number of the token that begins it. -/
  number : Nat
  mark : Cursor

/-- How far a text has been cut into tokens. -/
structure Lexer where
  cursor : Cursor
  /-- The tokens that are not certain yet. -/
  queue : List Token
  /-- How many tokens came before those. -/
  emitted : Nat
  indent : Int
  /-- The indentations around the current one. -/
  outer : List Int
  /-- For each level of flow collections, the innermost first, the place where a key may have begun.
  -/
  keys : List (Option PendingKey)
  /-- Whether a key may begin here. -/
  keyAllowed : Bool
  finished : Bool

/-- Characters that end a line. -/
def isBreak (c : Char) : Bool :=
  c == '\n' || c == '\r' || c == '\x85' || c == '\u2028' || c == '\u2029'

/-- Characters other than those that end a line. -/
def inLine (c : Char) : Bool := !isBreak c

/-- Characters other than blanks and those that end a line. -/
def isSolid (c : Char) : Bool := !(isSpaceOrTab c) && inLine c

/-- Whether the character there is a blank, a line end, or missing. -/
def isBlankOrEnd (c : Option Char) : Bool :=
  match c with
  | none => true
  | some c => !isSolid c

/-- Whether the character there is a line end or missing. -/
def isLineEnd (c : Option Char) : Bool :=
  match c with
  | none => true
  | some c => isBreak c

/-- The line break ahead as text, and the place behind it. -/
def takeBreak (c : Cursor) : List Char × Cursor :=
  match c.rest with
  | '\r' :: '\n' :: _ => (['\n'], c.breakLine 2)
  | x :: _ =>
    if x = '\u2028' ∨ x = '\u2029' then ([x], c.breakLine 1)
    else if isBreak x then (['\n'], c.breakLine 1)
    else ([], c)
  | [] => ([], c)

/-- Whether a document marker stands here: three of the same character at the start of a line. -/
def atMarker (c : Cursor) : Bool :=
  c.column == 0 && (c.startsWith ['-', '-', '-'] || c.startsWith ['.', '.', '.'])
    && isBlankOrEnd (c.peekAt 3)

/-- Spaces, tabs and a comment, up to the end of the line; anything else is malformed. -/
def toLineEnd (c : Cursor) : Option Cursor :=
  let c := c.skipWhile isSpaceOrTab
  let c := if c.sees '#' then c.skipWhile inLine else c
  if isLineEnd c.peek then some c else none

namespace Lexer

/-- The start of a text. -/
def start (text : List Char) : Lexer :=
  { cursor := .start text, queue := [⟨.streamStart, 0, 0⟩], emitted := 0, indent := -1, outer := []
    keys := [none], keyAllowed := true, finished := false }

/-- Whether the text stands in no flow collection. -/
def inBlock (l : Lexer) : Bool := decide (l.keys.length ≤ 1)

/-- Adds a token at the end. -/
def push (l : Lexer) (kind : TokenKind) (place : Nat) : Lexer :=
  { l with queue := l.queue ++ [⟨kind, place, place⟩] }

/-- Adds a token before the one with the given number. -/
def insert (l : Lexer) (number : Nat) (kind : TokenKind) (place : Nat) : Lexer :=
  let at_ := number - l.emitted
  { l with queue := l.queue.take at_ ++ ⟨kind, place, place⟩ :: l.queue.drop at_ }

/-- The number that the next token gets. -/
def nextNumber (l : Lexer) : Nat := l.emitted + l.queue.length

/-- Whether a key that began at a mark can no longer be one: it stays on its line and ends within
1024 characters. -/
def isStale (l : Lexer) (key : PendingKey) : Bool :=
  decide (key.mark.line < l.cursor.line) || decide (key.mark.index + 1024 < l.cursor.index)

/-- Gives up the pending keys that can no longer be keys. -/
def dropStale (l : Lexer) : Option Lexer :=
  if l.keys.any fun key => match key with
    | some key => key.required && l.isStale key
    | none => false
  then none
  else some { l with keys := l.keys.map fun key => key.filter fun key => !l.isStale key }

/-- Gives up the pending key of the current level. -/
def dropKey (l : Lexer) : Option Lexer :=
  match l.keys with
  | some key :: rest => if key.required then none else some { l with keys := none :: rest }
  | _ => some l

/-- Notes that a key may begin here. -/
def saveKey (l : Lexer) : Option Lexer :=
  if l.keyAllowed then do
    let required := l.inBlock && l.indent == (l.cursor.column : Int)
    let l ← l.dropKey
    return { l with keys := some ⟨required, l.nextNumber, l.cursor⟩ :: l.keys.tail }
  else some l

/-- Opens a block collection when the column is further in than the current indentation. The token
goes before the one with the given number, or at the end. -/
def openBlock (l : Lexer) (column : Nat) (number : Option Nat) (kind : TokenKind) (place : Nat) :
    Lexer :=
  if l.inBlock && decide (l.indent < column) then
    let l := { l with outer := l.indent :: l.outer, indent := column }
    match number with
    | some number => l.insert number kind place
    | none => l.push kind place
  else l

/-- Closes the block collections that are further in than a column, among the given indentations. -/
def closeBlocksOver (column : Int) (l : Lexer) : List Int → Lexer
  | [] => l
  | indent :: outer =>
    if column < l.indent then
      closeBlocksOver column
        { l.push .blockEnd l.cursor.index with indent := indent, outer := outer } outer
    else l

/-- Closes the block collections that are further in than a column. -/
def closeBlocks (l : Lexer) (column : Int) : Lexer :=
  if l.inBlock then closeBlocksOver column l l.outer else l

end Lexer

end ChartLift.Yaml.Content
