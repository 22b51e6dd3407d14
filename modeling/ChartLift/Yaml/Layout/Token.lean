import ChartLift.Text.Letter
import ChartLift.Yaml.Content.Token
import ChartLift.Yaml.Layout.Scalar

/-!
# Tokens of the layout reader

Each step takes one token from the text, or a few that belong to it: the ends of collections before
it, the start of a collection that it opens. A token is certain once no place where a key may have
begun is at or before it.
-/

namespace ChartLift.Yaml.Layout

/-- Characters of a URI. -/
def isUriCharacter (c : Char) : Bool :=
  c.isAlphanum || c == '-' || ['#', ';', '/', '?', ':', '@', '&', '=', '+', '$', ',', '_', '.', '!', '~',
    '*', '\'', '(', ')', '[', ']', '%'].contains c

/-- Characters of a URI that may also stand in a shorthand tag. -/
def isTagCharacter (c : Char) : Bool :=
  isUriCharacter c && !isFlowIndicator c && c != '!'

/-- Escapes `%XX` of one character in a tag: how many characters write it. Of two bytes the first
may begin no surrogate, and more bytes write none. -/
def uriEscapeLength (rest : List Char) : Option Nat :=
  let octet (rest : List Char) : Option Nat := match rest with
    | '%' :: a :: b :: _ => hexNumber? [a, b]
    | _ => none
  do
    let first ← octet rest
    if first < 0x80 then return 3
    else if first / 32 = 6 then
      let second ← octet (rest.drop 3)
      if second / 64 = 2 && first < 0xD8 then return 6 else none
    else none

/-- The place behind the characters of a tag that fit. -/
def passUri (fits : Char → Bool) : Nat → Cursor → Option Cursor
  | 0, _ => none
  | fuel + 1, c =>
    match c.rest with
    | [] => some c
    | x :: _ =>
      if fits x then
        if x == '%' then (uriEscapeLength c.rest).bind fun n => passUri fits fuel (c.advance n)
        else passUri fits fuel (c.advance 1)
      else some c

/-- A version directive behind its name. -/
def versionDirective (c : Cursor) : Option (TokenKind × Cursor) := do
  let (major, c) ← Content.versionNumber (c.skipWhile isSpaceOrTab)
  if !c.sees '.' then none
  else
    let (minor, c) ← Content.versionNumber (c.advance 1)
    return (.versionDirective major minor, c)

/-- A tag directive behind its name. -/
def tagDirective (c : Cursor) : Option (TokenKind × Cursor) := do
  let (handle, c) ← Content.tagHandle (c.skipWhile isSpaceOrTab)
  if !(handle = ['!'] || handle.getLast? == some '!') then none
  else
    let c := c.skipWhile isSpaceOrTab
    match c.peek with
    | none => none
    | some x =>
      if !(x == '!' || isTagCharacter x) then none
      else
        let after ← if x == '!' then some (c.advance 1)
          else passUri isUriCharacter (c.rest.length + 1) c
        let after ← passUri isUriCharacter (after.rest.length + 1) after
        if !isBlankOrEnd after.peek then none
        else
          let stem := c.rest.take (after.index - c.index)
          return (.tagDirective (String.ofList handle) (String.ofList stem), after)

/-- A directive behind its percent sign, and the place behind its line. An unknown one declares an
empty handle. -/
def directive (c : Cursor) : Option (TokenKind × Cursor) := do
  let name := c.ahead isWordCharacter
  let c := c.advance name.length
  if name.isEmpty || !isBlankOrEnd c.peek then none
  else
    let (kind, c) ←
      if name = "YAML".toList then versionDirective c
      else if name = "TAG".toList then tagDirective c
      else some (.tagDirective "" "", c.skipWhile inLine)
    let (_, c) ← passBlanks true c
    if isLineEnd c.peek then return (kind, passBreak c) else none

/-- A tag: verbatim, with a handle, or short. -/
def tag (flow : Bool) (c : Cursor) : Option (TokenKind × Cursor) := do
  let (handle, suffix, c) ←
    if c.peekAt 1 == some '<' then do
      let inner := c.advance 2
      let after ← passUri isUriCharacter (inner.rest.length + 1) inner
      if after.sees '>' then pure ([], inner.rest.take (after.index - inner.index), after.advance 1)
      else none
    else do
      let (handle, after) ← Content.tagHandle c
      let c ← passUri isTagCharacter (after.rest.length + 1) after
      let rest := after.rest.take (c.index - after.index)
      if decide (1 < handle.length) && handle.getLast? == some '!' then
        if rest.isEmpty then none else pure (handle, rest, c)
      else
        let suffix := handle.drop 1 ++ rest
        if suffix.isEmpty then pure ([], ['!'], c) else pure (['!'], suffix, c)
  if isBlankOrEnd c.peek || (flow && c.peek.any isFlowIndicator) then
    return (.tag (String.ofList handle) (String.ofList suffix), c)
  else none

/-- Characters of the name of an anchor. -/
def isAnchorCharacter (c : Char) : Bool :=
  isSolid c && !isFlowIndicator c && c != '\ufeff'

namespace Lexer

/-- Blanks, comments and empty lines before a token. A tab in the indentation of a block is
malformed unless nothing else stands on its line. -/
def toToken : Nat → Lexer → Option Lexer
  | 0, _ => none
  | fuel + 1, l =>
    match l.cursor.peek with
    | none => some l
    | some x =>
      if x == '\t' && !l.indents.isEmpty && l.leading && decide ((l.cursor.column : Int) < l.indent)
      then do
        let (_, l) ← l.passBlanks true
        if isLineEnd l.cursor.peek then toToken fuel l else none
      else if isSpaceOrTab x then
        toToken fuel { l with cursor := l.cursor.skipWhile fun y => y == x }
      else if isBreak x then
        toToken fuel
          { l with cursor := passBreak l.cursor, leading := true, keyAllowed := l.keyAllowed || l.inBlock }
      else if x == '#' then toToken fuel { l with cursor := l.cursor.skipWhile inLine }
      else some l

/-- The end of the text. -/
def streamEnd (l : Lexer) : Option Lexer :=
  if l.keys.any fun key => key.any fun key => key.required then none
  else
    let l := { l with keys := l.keys.map fun _ => none }.closeBlocks (-1)
    some { l.push .streamEnd l.cursor.index with keyAllowed := false, finished := true }

/-- A line that begins with a percent sign. -/
def directiveLine (l : Lexer) : Option Lexer := do
  let l ← (l.closeBlocks (-1)).dropKey
  let place := l.cursor.index
  let (kind, c) ← directive (l.cursor.advance 1)
  return { l.push kind place with cursor := c, leading := true, keyAllowed := false }

/-- A document marker. -/
def marker (l : Lexer) (kind : TokenKind) : Option Lexer := do
  let l ← (l.closeBlocks (-1)).dropKey
  let place := l.cursor.index
  return { (l.pass 3).push kind place with keyAllowed := false }

/-- The end of a document, with nothing else on its line. -/
def endMarker (l : Lexer) : Option Lexer := do
  let l ← l.marker .documentEnd
  let (_, l) ← l.passBlanks true
  if isLineEnd l.cursor.peek then some l else none

/-- The end of the pair of a flow sequence, if there is one. -/
def endPair (l : Lexer) : Lexer :=
  match l.insidePair with
  | true :: outer =>
    { l.push .flowMappingEnd l.cursor.index with mappingStarted := false, insidePair := false :: outer }
  | _ => l

/-- The start of a flow collection; they nest at most 255 deep. -/
def openFlow (l : Lexer) (sequence : Bool) : Option Lexer := do
  let l := l.saveKey.indentOneColumn
  if 255 < l.keys.length then none
  else
    let place := l.cursor.index
    let l := { l.pass 1 with keys := none :: l.keys, keyAllowed := true }
    let l :=
      if sequence then { l with insidePair := false :: l.insidePair } else { l with mappingStarted := true }
    let (_, l) ← l.passBlanks true
    return l.push (if sequence then .flowSequenceStart else .flowMappingStart) place

/-- The end of a flow collection. -/
def closeFlow (l : Lexer) (sequence : Bool) : Option Lexer := do
  let l ← l.dropKey
  let l := { l with keys := if l.inBlock then l.keys else l.keys.tail, keyAllowed := false }
  let l := if sequence then { l.endPair with insidePair := l.endPair.insidePair.tail } else l
  let place := l.cursor.index
  let (_, l) ← (l.pass 1).passBlanks true
  let l := if l.inBlock then l else { l with adjacent := l.cursor.index }
  return l.push (if sequence then .flowSequenceEnd else .flowMappingEnd) place

/-- A comma in a flow collection. -/
def comma (l : Lexer) : Option Lexer := do
  let l ← l.dropKey
  let l := { l with keyAllowed := true }.endPair
  let place := l.cursor.index
  let (_, l) ← (l.pass 1).passBlanks true
  return l.push .flowEntry place

/-- The dash of a block sequence. -/
def dash (l : Lexer) : Option Lexer :=
  let misplaced := !l.queue.isEmpty && l.propertyColumn == some 0 && l.cursor.column == 0
    && decide (-1 < l.indent)
  if !l.inBlock || !l.keyAllowed || misplaced then none
  else do
    let place := l.cursor.index
    let l := (l.pass 1).openBlock l.cursor.column none .blockSequenceStart place
    let (blanks, l) ← l.passBlanks true
    if blanks.tab && l.cursor.sees '-' && isBlankOrEnd (l.cursor.peekAt 1) then none
    else
      let l := if l.cursor.peek.any fun x => isBreak x || isFlowIndicator x then l.indentOneColumn else l
      let l ← l.dropKey
      return { l.push .blockEntry l.cursor.index with keyAllowed := true }

/-- Spaces, line breaks and comments, and whether there were any but comments. -/
def passSpaceLines : Nat → Bool → Lexer → Option (Bool × Lexer)
  | 0, _, _ => none
  | fuel + 1, passed, l =>
    match l.cursor.peek with
    | none => some (passed, l)
    | some x =>
      if x == ' ' then passSpaceLines fuel true { l with cursor := l.cursor.advance 1 }
      else if isBreak x then
        passSpaceLines fuel true
          { l with cursor := passBreak l.cursor, leading := true, keyAllowed := l.keyAllowed || l.inBlock }
      else if x == '#' then passSpaceLines fuel passed { l with cursor := l.cursor.skipWhile inLine }
      else some (passed, l)

/-- A question mark before a key. -/
def explicitKey (l : Lexer) : Option Lexer :=
  if l.inBlock && !l.keyAllowed then none
  else do
    let place := l.cursor.index
    let l := if l.inBlock then l.openBlock l.cursor.column none .blockMappingStart place
      else { l with mappingStarted := true }
    let l ← l.dropKey
    let l := { l.pass 1 with keyAllowed := l.inBlock }
    let (passed, l) ← passSpaceLines (l.cursor.rest.length + 1) false l
    if !passed || l.cursor.sees '\t' then none else some (l.push .key place)

/-- Whether a tab behind a `:` stands where a space is asked for, before a dash or a word. -/
def tabBeforeValue (blanks : Blanks) (c : Cursor) : Bool :=
  !blanks.space && c.peek.any fun x => x == '-' || Text.isLetterOrNumeral x

/-- A colon before a value: what stands before it is a key, where one may have begun. In a flow
sequence it makes a pair. -/
def colon (l : Lexer) : Option Lexer := do
  let mark := l.cursor
  let key := l.keys.head?.join
  let pair := !l.insidePair.isEmpty && !l.mappingStarted
  let l := if pair then { l with insidePair := true :: l.insidePair.tail } else l
  let l := l.pass 1
  let l ←
    if l.cursor.sees '\t' then do
      let (blanks, l) ← l.passBlanks true
      if tabBeforeValue blanks l.cursor then none else some l
    else some l
  match key with
  | some key =>
    let l := l.insert key.number .key key.mark.index
    if pair && decide (key.mark.line < mark.line) then none
    else
      let l := if pair then l.insert key.number .flowMappingStart l.cursor.index else l
      let l := l.openBlock key.mark.column (some key.number) .blockMappingStart mark.index
      let l := l.indentOneColumn
      return { l.push .value mark.index with keys := none :: l.keys.tail, keyAllowed := false }
  | none =>
    let l := if pair then l.push .flowMappingStart l.cursor.index else l
    if l.inBlock && !l.keyAllowed then none
    else
      let l := (l.openBlock mark.column none .blockMappingStart mark.index).indentOneColumn
      return { l.push .value mark.index with keyAllowed := l.inBlock }

/-- A colon in a flow collection with no blank behind it. -/
def tightColon (l : Lexer) : Option Lexer :=
  let next := l.cursor.peekAt 1
  if l.cursor.index != l.adjacent && (next == some '[' || next == some '\x7b') then none else l.colon

/-- An anchor or an alias. -/
def named (l : Lexer) (kind : String → TokenKind) : Option Lexer :=
  let l := l.saveKey
  let mark := l.cursor
  let name := (mark.advance 1).ahead isAnchorCharacter
  if name.isEmpty then none
  else
    let token := kind (String.ofList name)
    let column := match token with
      | .anchor _ => some mark.column
      | _ => none
    some { (l.pass (name.length + 1)).push token mark.index with
      keyAllowed := false, propertyColumn := column }

/-- A tag. -/
def tagToken (l : Lexer) : Option Lexer := do
  let l := l.saveKey
  let mark := l.cursor
  let (kind, c) ← tag (!l.inBlock) mark
  return { l.push kind mark.index with
    cursor := c, leading := false, keyAllowed := false, propertyColumn := some mark.column }

/-- A block scalar. -/
def blockToken (l : Lexer) (literal : Bool) : Option Lexer := do
  let l := l.saveKey.dropColumns
  let scalar ← blockScalar literal l.indent l.loaded l.cursor (l.cursor.advance 1)
  return { l.push (.scalar (String.ofList scalar.text) .block) scalar.start with
    cursor := scalar.cursor, leading := true, keyAllowed := true }

/-- What follows a quoted scalar: the end of the line, or the rest of the collection that it is in.
A key outside of flow collections stands on one line. -/
def followsQuoted (l : Lexer) (mark : Cursor) : Bool :=
  match l.cursor.peek with
  | none => true
  | some x =>
    isBreak x
      || (if l.inBlock then x == ':' && mark.line == l.cursor.line
        else x == ',' || x == ']' || x == '\x7d' || x == ':')

/-- A quoted scalar. -/
def quotedToken (l : Lexer) (double : Bool) : Option Lexer := do
  let l := l.saveKey
  let mark := l.cursor
  let (text, c) ← quotedFrom double l.indent (mark.rest.length + 1) (mark.advance 1)
  let l := { l with cursor := c, leading := false, keyAllowed := false }
  let (_, l) ← l.passBlanks true
  if !l.followsQuoted mark then none
  else
    let l ← toToken (l.cursor.rest.length + 1) l
    let style := if double then ScalarStyle.doubleQuoted else .singleQuoted
    return { l.push (.scalar (String.ofList text) style) mark.index with adjacent := l.cursor.index }

/-- A plain scalar. -/
def plainToken (l : Lexer) : Option Lexer := do
  let l := { l.saveKey with keyAllowed := false }.dropColumns
  let mark := l.cursor
  let indent := l.indent + 1
  if !l.inBlock && decide ((mark.column : Int) < indent) then none
  else
    let start : PlainState := ⟨.none, mark, l.loaded, l.leading⟩
    let (text, s) ← plainFrom (!l.inBlock) indent (mark.rest.length + 1) start
    if text.isEmpty then none
    else
      return { l.push (.scalar (String.ofList text) .plain) mark.index with
        cursor := s.cursor, loaded := s.loaded, leading := s.leading, keyAllowed := s.leading }

/-- The next token of a text that has more to say. -/
def fetch (l : Lexer) : Option Lexer := do
  let l ← (← toToken (2 * l.cursor.rest.length + 2) l).dropStale
  let l := (l.closeBlocks l.cursor.column).load 4
  let c := l.cursor
  let block := l.inBlock
  let next := c.peekAt 1
  match c.peek with
  | none => l.streamEnd
  | some x =>
    if c.column == 0 && x == '%' then l.directiveLine
    else if c.column == 0 && atMarkerOf '-' c then l.marker .documentStart
    else if c.column == 0 && atMarkerOf '.' c then l.endMarker
    else if (c.column : Int) < l.indent then none
    else if x == '[' then l.openFlow true
    else if x == '\x7b' then l.openFlow false
    else if x == ']' then l.closeFlow true
    else if x == '\x7d' then l.closeFlow false
    else if x == ',' then l.comma
    else if x == '-' && isBlankOrEnd next then l.dash
    else if x == '?' && isBlankOrEnd next then l.explicitKey
    else if x == ':' && isBlankOrEnd next then l.colon
    else if x == ':' && !block && (next.any isFlowIndicator || c.index == l.adjacent) then l.tightColon
    else if x == '*' then l.named .alias
    else if x == '&' then l.named .anchor
    else if x == '!' then l.tagToken
    else if x == '|' && block then l.blockToken true
    else if x == '>' && block then l.blockToken false
    else if x == '\'' then l.quotedToken false
    else if x == '"' then l.quotedToken true
    else if x == '%' || x == '@' || x == '\x60' then none
    else l.plainToken

/-- Whether a key may have begun at the next token or before it. -/
def undecided (l : Lexer) : Bool :=
  l.keys.any fun key => key.any fun key => key.number == l.emitted

/-- The tokens from here on, for at most `fuel` steps. -/
def run : Nat → Lexer → TokenStream
  | 0, _ => ⟨[], true⟩
  | fuel + 1, l =>
    match l.queue with
    | [] =>
      if l.finished then ⟨[], false⟩
      else
        match l.fetch with
        | none => ⟨[], true⟩
        | some l => run fuel l
    | _ :: _ =>
      match l.dropStale with
      | none => ⟨[], true⟩
      | some l =>
        if l.undecided then
          match l.fetch with
          | none => ⟨[], true⟩
          | some l => run fuel l
        else
          match l.queue with
          | [] => ⟨[], true⟩
          | token :: queue =>
            let later := run fuel { l with queue := queue, emitted := l.emitted + 1 }
            ⟨{ token with reached := l.cursor.index } :: later.tokens, later.broken⟩

end Lexer

/-- The tokens of a text, which ends at a NUL if it holds one. Every step takes a character or ends
a collection, so their number is bounded. -/
def tokens (text : List Char) : TokenStream :=
  let text := text.takeWhile (· != '\x00')
  Lexer.run (8 * (text.length + 4)) (.start text)

end ChartLift.Yaml.Layout
