import ChartLift.Yaml.Content.Scalar

/-!
# Tokens of the content reader

Each step takes one token from the text, or a few that belong to it: the ends of collections before
it, the start of a collection that it opens. A token is certain once no place where a key may have
begun is at or before it.
-/

namespace ChartLift.Yaml.Content

/-- Blanks, comments and empty lines before a token. A tab counts as a blank only where no key may
begin; a byte order mark may start a line. -/
def toToken : Nat → Lexer → Lexer
  | 0, l => l
  | fuel + 1, l =>
    let c := l.cursor
    let c := if c.column == 0 && c.sees '\ufeff' then c.advance 1 else c
    let tabs := !l.inBlock || !l.keyAllowed
    let c := c.skipWhile fun x => x == ' ' || (tabs && x == '\t')
    let c := if c.sees '#' then c.skipWhile inLine else c
    if c.peek.any isBreak then
      toToken fuel
        { l with cursor := (takeBreak c).2, keyAllowed := l.keyAllowed || l.inBlock }
    else { l with cursor := c }

/-- A number of a version, of at most nine digits. -/
def versionNumber (c : Cursor) : Option (Nat × Cursor) :=
  let digits := c.ahead Char.isDigit
  if digits.isEmpty || decide (9 < digits.length) then none
  else some (digits.foldl (fun n x => n * 10 + (x.toNat - 48)) 0, c.advance digits.length)

/-- The escapes `%XX` of one character in a tag, and how many characters write it. -/
def takeUriEscapes (rest : List Char) : Option (Char × Nat) :=
  let octet (rest : List Char) : Option Nat := match rest with
    | '%' :: a :: b :: _ => hexNumber? [a, b]
    | _ => none
  let trail (rest : List Char) : Option Nat :=
    (octet rest).bind fun n => if n / 64 = 2 then some (n % 64) else none
  do
    let first ← octet rest
    if first < 0x80 then return (Char.ofNat first, 3)
    else if first / 32 = 6 then
      let a ← trail (rest.drop 3)
      return (Char.ofNat ((first % 32) * 64 + a), 6)
    else if first / 16 = 14 then
      let a ← trail (rest.drop 3)
      let b ← trail (rest.drop 6)
      return (Char.ofNat ((first % 16) * 4096 + a * 64 + b), 9)
    else if first / 8 = 30 then
      let a ← trail (rest.drop 3)
      let b ← trail (rest.drop 6)
      let d ← trail (rest.drop 9)
      return (Char.ofNat ((first % 8) * 262144 + a * 4096 + b * 64 + d), 12)
    else none

/-- The characters of a tag from here on; a verbatim one may hold brackets and commas. -/
def uriCharacters (verbatim : Bool) : Nat → Cursor → Option (List Char × Cursor)
  | 0, _ => none
  | fuel + 1, c =>
    match c.rest with
    | [] => some ([], c)
    | x :: _ =>
      if isTagCharacter x || (verbatim && (x == ',' || x == '[' || x == ']')) then
        if x == '%' then do
          let (y, count) ← takeUriEscapes c.rest
          let (later, c) ← uriCharacters verbatim fuel (c.advance count)
          return (y :: later, c)
        else do
          let (later, c) ← uriCharacters verbatim fuel (c.advance 1)
          return (x :: later, c)
      else some ([], c)

/-- The characters of a tag, of which there is at least one, `head` counted. -/
def tagUri (verbatim : Bool) (head : List Char) (c : Cursor) : Option (List Char × Cursor) := do
  let (text, c) ← uriCharacters verbatim (c.rest.length + 1) c
  if head.isEmpty && text.isEmpty then none else some (head ++ text, c)

/-- The handle of a tag: an exclamation mark, or two around a word, or one before the word. -/
def tagHandle (c : Cursor) : Option (List Char × Cursor) :=
  if c.sees '!' then
    let word := (c.advance 1).ahead isWordCharacter
    let c := c.advance (word.length + 1)
    if c.sees '!' then some ('!' :: word ++ ['!'], c.advance 1) else some ('!' :: word, c)
  else none

/-- A directive behind its percent sign, and the place behind its line. -/
def directive (c : Cursor) : Option (TokenKind × Cursor) := do
  let name := c.ahead isWordCharacter
  let c := c.advance name.length
  if !isBlankOrEnd c.peek then none
  else
    let c := c.skipWhile isSpaceOrTab
    let (kind, c) ←
      if name = "YAML".toList then do
        let (major, c) ← versionNumber c
        if !c.sees '.' then none
        else
          let (minor, c) ← versionNumber (c.advance 1)
          pure (TokenKind.versionDirective major minor, c)
      else if name = "TAG".toList then do
        let (handle, c) ← tagHandle c
        if !(handle = ['!'] || handle.getLast? == some '!') || !c.peek.any isSpaceOrTab then none
        else
          let (stem, c) ← tagUri true [] (c.skipWhile isSpaceOrTab)
          if !isBlankOrEnd c.peek then none
          else pure (TokenKind.tagDirective (String.ofList handle) (String.ofList stem), c)
      else none
    let c ← toLineEnd c
    return (kind, (takeBreak c).2)

/-- A tag: verbatim, with a handle, or short. -/
def tag (flow : Bool) (c : Cursor) : Option (TokenKind × Cursor) := do
  let (handle, suffix, c) ←
    if c.peekAt 1 == some '<' then do
      let (uri, c) ← tagUri true [] (c.advance 2)
      if c.sees '>' then pure ([], uri, c.advance 1) else none
    else do
      let (handle, after) ← tagHandle c
      if decide (1 < handle.length) && handle.getLast? == some '!' then
        let (suffix, c) ← tagUri false [] after
        pure (handle, suffix, c)
      else
        let head := handle.drop 1
        let (rest, c) ← uriCharacters false (after.rest.length + 1) after
        let suffix := head ++ rest
        if suffix.isEmpty then pure ([], ['!'], c) else pure (['!'], suffix, c)
  if isBlankOrEnd c.peek || (flow && c.sees ',') then
    return (.tag (String.ofList handle) (String.ofList suffix), c)
  else none

/-- The name of an anchor or an alias behind its indicator. -/
def anchorName (c : Cursor) : Option (String × Cursor) :=
  let name := c.ahead isWordCharacter
  let c := c.advance name.length
  let ends := match c.peek with
    | none => true
    | some x => isBlankOrEnd (some x) || ['?', ':', ',', ']', '\x7d', '%', '@', '\x60'].contains x
  if name.isEmpty || !ends then none else some (String.ofList name, c)

namespace Lexer

/-- A token at the cursor that is `count` characters long. -/
def pushHere (l : Lexer) (kind : TokenKind) (count : Nat) : Lexer :=
  { l.push kind l.cursor.index with cursor := l.cursor.advance count }

/-- A token at the cursor that ends at another place. -/
def pushUpTo (l : Lexer) (kind : TokenKind) (c : Cursor) : Lexer :=
  { l.push kind l.cursor.index with cursor := c }

/-- The end of the text. -/
def streamEnd (l : Lexer) : Option Lexer := do
  let l ← (l.closeBlocks (-1)).dropKey
  return { l.push .streamEnd l.cursor.index with keyAllowed := false, finished := true }

/-- A line that begins with a percent sign. -/
def directiveLine (l : Lexer) : Option Lexer := do
  let l ← (l.closeBlocks (-1)).dropKey
  let (kind, c) ← directive (l.cursor.advance 1)
  return { l.pushUpTo kind c with keyAllowed := false }

/-- A document marker. -/
def marker (l : Lexer) (kind : TokenKind) : Option Lexer := do
  let l ← (l.closeBlocks (-1)).dropKey
  return { l.pushHere kind 3 with keyAllowed := false }

/-- The start of a flow collection. -/
def openFlow (l : Lexer) (kind : TokenKind) : Option Lexer := do
  let l ← l.saveKey
  return { l.pushHere kind 1 with keys := none :: l.keys, keyAllowed := true }

/-- The end of a flow collection. -/
def closeFlow (l : Lexer) (kind : TokenKind) : Option Lexer := do
  let l ← l.dropKey
  let keys := if l.inBlock then l.keys else l.keys.tail
  return { l.pushHere kind 1 with keys := keys, keyAllowed := false }

/-- A comma in a flow collection. -/
def comma (l : Lexer) : Option Lexer := do
  let l ← l.dropKey
  return { l.pushHere .flowEntry 1 with keyAllowed := true }

/-- The dash of a block sequence. -/
def dash (l : Lexer) : Option Lexer :=
  if l.inBlock && !l.keyAllowed then none
  else do
    let l := l.openBlock l.cursor.column none .blockSequenceStart l.cursor.index
    let l ← l.dropKey
    return { l.pushHere .blockEntry 1 with keyAllowed := true }

/-- A question mark before a key. -/
def explicitKey (l : Lexer) : Option Lexer :=
  if l.inBlock && !l.keyAllowed then none
  else do
    let l := l.openBlock l.cursor.column none .blockMappingStart l.cursor.index
    let l ← l.dropKey
    return { l.pushHere .key 1 with keyAllowed := l.inBlock }

/-- A colon before a value: what stands before it is a key, where one may have begun. -/
def colon (l : Lexer) : Option Lexer :=
  match l.keys with
  | some key :: outer =>
    let l := l.insert key.number .key key.mark.index
    let l := l.openBlock key.mark.column (some key.number) .blockMappingStart key.mark.index
    some { l.pushHere .value 1 with keys := none :: outer, keyAllowed := false }
  | _ =>
    if l.inBlock && !l.keyAllowed then none
    else
      let l := l.openBlock l.cursor.column none .blockMappingStart l.cursor.index
      some { l.pushHere .value 1 with keyAllowed := l.inBlock }

/-- An anchor or an alias. -/
def named (l : Lexer) (kind : String → TokenKind) : Option Lexer := do
  let l ← l.saveKey
  let (name, c) ← anchorName (l.cursor.advance 1)
  return { l.pushUpTo (kind name) c with keyAllowed := false }

/-- A tag. -/
def tagToken (l : Lexer) : Option Lexer := do
  let l ← l.saveKey
  let (kind, c) ← tag (!l.inBlock) l.cursor
  return { l.pushUpTo kind c with keyAllowed := false }

/-- A block scalar. -/
def blockToken (l : Lexer) (literal : Bool) : Option Lexer := do
  let l ← l.dropKey
  let (text, c) ← blockScalar literal l.indent (l.cursor.advance 1)
  return { l.pushUpTo (.scalar (String.ofList text) .block) c with keyAllowed := true }

/-- A quoted scalar. -/
def quotedToken (l : Lexer) (double : Bool) : Option Lexer := do
  let l ← l.saveKey
  let (text, c) ← quotedFrom double (l.cursor.rest.length + 1) (l.cursor.advance 1)
  let style := if double then ScalarStyle.doubleQuoted else .singleQuoted
  return { l.pushUpTo (.scalar (String.ofList text) style) c with keyAllowed := false }

/-- A plain scalar. -/
def plainToken (l : Lexer) : Option Lexer := do
  let l ← l.saveKey
  let (text, c, broken) ←
    plainFrom (!l.inBlock) (l.indent + 1) (l.cursor.rest.length + 1) Gap.none l.cursor
  return { l.pushUpTo (.scalar (String.ofList text) .plain) c with keyAllowed := broken }

/-- Characters that no plain scalar begins with. -/
def isIndicator (c : Char) : Bool :=
  isFlowIndicator c || ['-', '?', ':', '#', '&', '*', '!', '|', '>', '\'', '"', '%', '@', '\x60'].contains c

/-- The next token of a text that has more to say. -/
def fetch (l : Lexer) : Option Lexer := do
  let l ← (toToken (l.cursor.rest.length + 1) l).dropStale
  let l := l.closeBlocks l.cursor.column
  let c := l.cursor
  let block := l.inBlock
  let blankNext := isBlankOrEnd (c.peekAt 1)
  match c.peek with
  | none => l.streamEnd
  | some x =>
    if c.column == 0 && x == '%' then l.directiveLine
    else if atMarker c then l.marker (if x == '-' then .documentStart else .documentEnd)
    else if x == '[' then l.openFlow .flowSequenceStart
    else if x == '\x7b' then l.openFlow .flowMappingStart
    else if x == ']' then l.closeFlow .flowSequenceEnd
    else if x == '\x7d' then l.closeFlow .flowMappingEnd
    else if x == ',' then l.comma
    else if x == '-' && blankNext then l.dash
    else if x == '?' && (!block || blankNext) then l.explicitKey
    else if x == ':' && (!block || blankNext) then l.colon
    else if x == '*' then l.named .alias
    else if x == '&' then l.named .anchor
    else if x == '!' then l.tagToken
    else if x == '|' && block then l.blockToken true
    else if x == '>' && block then l.blockToken false
    else if x == '\'' then l.quotedToken false
    else if x == '"' then l.quotedToken true
    else if (isSolid x && !isIndicator x) || (x == '-' && !(c.peekAt 1).any isSpaceOrTab)
        || (block && (x == '?' || x == ':') && !blankNext) then l.plainToken
    else none

/-- Whether a key may have begun at the next token or before it. -/
def undecided (l : Lexer) : Bool :=
  l.keys.any fun key => match key with
    | some key => key.number == l.emitted
    | none => false

/-- The tokens from here on, for at most `fuel` steps. -/
def run : Nat → Lexer → TokenStream
  | 0, _ => ⟨[], true⟩
  | fuel + 1, l =>
    match l.dropStale with
    | none => ⟨[], true⟩
    | some fresh =>
      match fresh.queue with
      | token :: queue =>
        if fresh.undecided then
          match fresh.fetch with
          | none => ⟨[], true⟩
          | some l => run fuel l
        else
          let later := run fuel { fresh with queue := queue, emitted := fresh.emitted + 1 }
          ⟨token :: later.tokens, later.broken⟩
      | [] =>
        if l.finished then ⟨[], false⟩
        else
          match l.fetch with
          | none => ⟨[], true⟩
          | some l => run fuel l

end Lexer

/-- Characters that no YAML text may hold: controls other than tab and line breaks, and the two last
code points of the basic plane. -/
def isForbidden (c : Char) : Bool :=
  let n := c.toNat
  !(n == 0x9 || n == 0xA || n == 0xD || (decide (0x20 ≤ n) && decide (n ≤ 0x7E)) || n == 0x85
    || (decide (0xA0 ≤ n) && decide (n ≤ 0xFFFD)) || decide (0x10000 ≤ n))

/-- The tokens of a text. Every step takes a character or ends a collection, so their number is
bounded. -/
def tokens (text : List Char) : TokenStream :=
  if text.any isForbidden then ⟨[], true⟩
  else Lexer.run (8 * (text.length + 4)) (.start text)

end ChartLift.Yaml.Content
