import ChartLift.Yaml.Cursor
import ChartLift.Yaml.Token

/-!
# State of the layout reader

How far a text has been cut into tokens when the places of nodes are asked for: the tokens that are
not certain yet, the indentation of the open block collections, the places where keys may have
begun, and what is known about pairs inside flow sequences.

An indentation is either that of a block collection, which ends with it, or one column that a value
has to be further in than its key.
-/

namespace ChartLift.Yaml.Layout

/-- A place where a key may have begun. -/
structure PendingKey where
  /-- Whether the text is malformed unless it is a key. -/
  required : Bool
  /-- The number of the token that begins it. -/
  number : Nat
  mark : Cursor

/-- An indentation that another one has been put over. -/
structure Indent where
  column : Int
  /-- Whether the one over it belongs to a block collection. -/
  ofBlock : Bool

/-- How far a text has been cut into tokens. -/
structure Lexer where
  cursor : Cursor
  /-- The index up to which characters have been looked at. -/
  loaded : Nat
  /-- Whether only blanks stand before the cursor on its line. -/
  leading : Bool
  /-- The tokens that are not certain yet. -/
  queue : List Token
  /-- How many tokens came before those. -/
  emitted : Nat
  indent : Int
  /-- The indentations under the current one, the innermost first. -/
  indents : List Indent
  /-- For each level of flow collections, the innermost first, the place where a key may have begun.
  -/
  keys : List (Option PendingKey)
  /-- Whether a key may begin here. -/
  keyAllowed : Bool
  /-- The index at which a `:` may stand close to its value, behind a quoted or bracketed key. -/
  adjacent : Nat
  /-- Whether a flow mapping has begun since the last pair of a flow sequence ended. -/
  mappingStarted : Bool
  /-- For each open flow sequence, the innermost first, whether it is inside a pair. -/
  insidePair : List Bool
  /-- The column of an anchor or a tag, where that is the last token. -/
  propertyColumn : Option Nat
  finished : Bool

/-- Characters that end a line. -/
def isBreak (c : Char) : Bool := c == '\n' || c == '\r'

/-- Characters other than those that end a line. -/
def inLine (c : Char) : Bool := !isBreak c

/-- Characters other than blanks and those that end a line. -/
def isSolid (c : Char) : Bool := !isSpaceOrTab c && inLine c

/-- Whether the character there is a blank, a line end, or missing. -/
def isBlankOrEnd (c : Option Char) : Bool :=
  match c with
  | none => true
  | some c => !isSolid c

/-- Whether the character there is a line end or missing. -/
def isLineEnd (c : Option Char) : Bool :=
  match c with
  | none => true
  | some c => isBreak c

/-- The place behind the line break ahead. -/
def passBreak (c : Cursor) : Cursor :=
  match c.rest with
  | '\r' :: '\n' :: _ => c.breakLine 2
  | x :: _ => if isBreak x then c.breakLine 1 else c
  | [] => c

/-- Whether a document marker of the given character stands here. -/
def atMarkerOf (x : Char) (c : Cursor) : Bool :=
  c.startsWith [x, x, x] && isBlankOrEnd (c.peekAt 3)

/-- Whether a document marker stands here, the column aside. -/
def atMarker (c : Cursor) : Bool := atMarkerOf '-' c || atMarkerOf '.' c

/-- What was passed before the end of a line or the next token on it. -/
structure Blanks where
  tab : Bool
  space : Bool

/-- Spaces, tabs where they are allowed, and a comment. A comment has to stand apart from what is
before it. -/
def passBlanks (tabs : Bool) (c : Cursor) : Option (Blanks × Cursor) :=
  let passed := c.ahead fun x => x == ' ' || (tabs && x == '\t')
  let after := c.advance passed.length
  let blanks : Blanks := ⟨passed.contains '\t', passed.contains ' '⟩
  if after.sees '#' then
    if passed.isEmpty then none else some (blanks, after.skipWhile inLine)
  else some (blanks, after)

namespace Lexer

/-- The start of a text. -/
def start (text : List Char) : Lexer :=
  { cursor := .start text, loaded := 0, leading := true, queue := [⟨.streamStart, 0, 0⟩]
    emitted := 0, indent := -1, indents := [], keys := [none], keyAllowed := true, adjacent := 0
    mappingStarted := false, insidePair := [], propertyColumn := none, finished := false }

/-- Whether the text stands in no flow collection. -/
def inBlock (l : Lexer) : Bool := decide (l.keys.length ≤ 1)

/-- Notes that `n` characters from the cursor on have been looked at. -/
def load (l : Lexer) (n : Nat) : Lexer := { l with loaded := max l.loaded (l.cursor.index + n) }

/-- Adds a token at the end. -/
def push (l : Lexer) (kind : TokenKind) (place : Nat) : Lexer :=
  { l with queue := l.queue ++ [⟨kind, place, place⟩], propertyColumn := none }

/-- Adds a token before the one with the given number. -/
def insert (l : Lexer) (number : Nat) (kind : TokenKind) (place : Nat) : Lexer :=
  let before := number - l.emitted
  { l with queue := l.queue.take before ++ ⟨kind, place, place⟩ :: l.queue.drop before }

/-- The number that the next token gets. -/
def nextNumber (l : Lexer) : Nat := l.emitted + l.queue.length

/-- Whether a key that began at a mark can no longer be one: outside of flow collections it stays on
its line and ends within 1024 characters. -/
def isStale (l : Lexer) (key : PendingKey) : Bool :=
  l.inBlock &&
    (decide (key.mark.line < l.cursor.line) || decide (key.mark.index + 1024 < l.cursor.index))

/-- Gives up the pending keys that can no longer be keys. -/
def dropStale (l : Lexer) : Option Lexer :=
  if l.keys.any fun key => match key with
    | some key => key.required && l.isStale key
    | none => false
  then none
  else some { l with keys := l.keys.map fun key => key.filter fun key => !l.isStale key }

/-- Gives up the pending key of the current level. -/
def dropKey (l : Lexer) : Option Lexer :=
  match l.keys with
  | some key :: rest => if key.required then none else some { l with keys := none :: rest }
  | _ => some l

/-- Whether the current indentation is that of a block collection. -/
def indentOfBlock (l : Lexer) : Bool :=
  match l.indents with
  | indent :: _ => indent.ofBlock
  | [] => false

/-- Notes that a key may begin here. -/
def saveKey (l : Lexer) : Lexer :=
  if l.keyAllowed then
    let required := l.inBlock && l.indent == (l.cursor.column : Int) && l.indentOfBlock
    { l with keys := some ⟨required, l.nextNumber, l.cursor⟩ :: l.keys.tail }
  else l

/-- Takes back an indentation of one column that turns out to be that of a block collection. -/
def dropColumn (l : Lexer) (column : Nat) : Lexer :=
  match l.indents with
  | indent :: outer =>
    if decide (l.indent ≤ column) && !indent.ofBlock then
      { l with indent := indent.column, indents := outer }
    else l
  | [] => l

/-- Opens a block collection when the column is further in than the current indentation. The token
goes before the one with the given number, or at the end. -/
def openBlock (l : Lexer) (column : Nat) (number : Option Nat) (kind : TokenKind) (place : Nat) :
    Lexer :=
  if l.inBlock then
    let l := l.dropColumn column
    if l.indent < column then
      let l := { l with indents := ⟨l.indent, true⟩ :: l.indents, indent := column }
      match number with
      | some number => l.insert number kind place
      | none => l.push kind place
    else l
  else l

/-- Closes what is further in than a column, among the given indentations. -/
def closeBlocksOver (column : Int) (l : Lexer) : List Indent → Lexer
  | [] => l
  | indent :: outer =>
    if column < l.indent then
      let l := if indent.ofBlock then l.push .blockEnd l.cursor.index else l
      closeBlocksOver column { l with indent := indent.column, indents := outer } outer
    else l

/-- Closes the block collections that are further in than a column. -/
def closeBlocks (l : Lexer) (column : Int) : Lexer :=
  if l.inBlock then closeBlocksOver column l l.indents else l

/-- Asks what follows to be one column further in. -/
def indentOneColumn (l : Lexer) : Lexer :=
  if l.inBlock && l.indentOfBlock then
    { l with indents := ⟨l.indent, false⟩ :: l.indents, indent := l.indent + 1 }
  else l

/-- Takes back the indentations of one column. -/
def dropColumns (l : Lexer) : Lexer :=
  let kept := l.indents.dropWhile (!·.ofBlock)
  match (l.indents.takeWhile (!·.ofBlock)).getLast? with
  | some indent => { l with indent := indent.column, indents := kept }
  | none => l

/-- Moves past `n` characters of the line, the first of which is no blank. -/
def pass (l : Lexer) (n : Nat) : Lexer :=
  { l with cursor := l.cursor.advance n, leading := false }

/-- Moves past blanks and a comment. -/
def passBlanks (l : Lexer) (tabs : Bool) : Option (Blanks × Lexer) :=
  (Layout.passBlanks tabs l.cursor).map fun (blanks, c) => (blanks, { l with cursor := c })

end Lexer

end ChartLift.Yaml.Layout
