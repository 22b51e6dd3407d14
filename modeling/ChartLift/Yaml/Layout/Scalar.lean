import ChartLift.Text.Utf8
import ChartLift.Yaml.Content.Scalar
import ChartLift.Yaml.Layout.Lexer

/-!
# Scalars of the layout reader

The text of plain, quoted and block scalars, with the places behind them. Line breaks inside plain
and quoted scalars are folded: a single break becomes a space, further ones are kept.
-/

namespace ChartLift.Yaml.Layout

open Content (Gap)

/-- Blanks and breaks inside a quoted scalar. A tab before the indentation is malformed on a line of
its own. -/
def takeGap (indent : Int) : Nat → Gap → Cursor → Option (Gap × Cursor)
  | 0, _, _ => none
  | fuel + 1, gap, c =>
    match c.peek with
    | none => some (gap, c)
    | some x =>
      if isSpaceOrTab x then
        if gap.broken then
          if x == '\t' && decide ((c.column : Int) < indent) then none
          else takeGap indent fuel gap (c.advance 1)
        else takeGap indent fuel { gap with blanks := gap.blanks ++ [x] } (c.advance 1)
      else if isBreak x then
        if gap.broken then takeGap indent fuel { gap with more := gap.more ++ ['\n'] } (passBreak c)
        else takeGap indent fuel { gap with broken := true, blanks := [], first := ['\n'] } (passBreak c)
      else some (gap, c)

/-- The part of a quoted scalar up to the next blank, break or closing quote: its text, the place
behind it, and whether it ends with an escaped break. -/
def quotedPart (double : Bool) : Nat → Cursor → Option (List Char × Cursor × Bool)
  | 0, _ => none
  | fuel + 1, c =>
    let goOn (x : Char) (count : Nat) : Option (List Char × Cursor × Bool) :=
      (quotedPart double fuel (c.advance count)).map fun (part, c, escaped) => (x :: part, c, escaped)
    match c.rest with
    | [] => some ([], c, false)
    | x :: rest =>
      if !isSolid x then some ([], c, false)
      else if !double && x == '\'' then
        if rest.head? == some '\'' then goOn '\'' 2 else some ([], c, false)
      else if double && x == '"' then some ([], c, false)
      else if double && x == '\\' then
        if rest.head?.any isBreak then some ([], passBreak (c.advance 1), true)
        else
          match Content.takeEscape rest with
          | none => none
          | some (z, count) => goOn z (count + 1)
      else goOn x 1

/-- A quoted scalar from here on: the rest of its text and the place behind the closing quote. Its
lines may not stand further out than the indentation. -/
def quotedFrom (double : Bool) (indent : Int) : Nat → Cursor → Option (List Char × Cursor)
  | 0, _ => none
  | fuel + 1, c => do
    if (c.column == 0 && atMarker c) || c.atEnd || decide ((c.column : Int) < indent) then none
    else
      let (part, c, escaped) ← quotedPart double (c.rest.length + 1) c
      if c.sees (if double then '"' else '\'') then some (part, c.advance 1)
      else
        let gap : Gap := if escaped then ⟨true, [], [], []⟩ else .none
        let (gap, c) ← takeGap indent (c.rest.length + 1) gap c
        let (later, c) ← quotedFrom double indent fuel c
        return (part ++ gap.text ++ later, c)

/-- Whether a plain scalar goes on with this character, `next` being the one behind it. -/
def continuesPlain (flow : Bool) (x : Char) (next : Option Char) : Bool :=
  if x == ':' then !(isBlankOrEnd next || (flow && next.any isFlowIndicator))
  else !(flow && isFlowIndicator x)

/-- The part of a plain scalar up to the next blank or its end. -/
def plainPart (flow : Bool) : List Char → List Char
  | [] => []
  | x :: rest =>
    if isSolid x && continuesPlain flow x rest.head? then x :: plainPart flow rest else []

/-- Where a plain scalar stands: the gap before the cursor, the place, how far characters have been
looked at, and whether only blanks stand before it on its line. -/
structure PlainState where
  gap : Gap
  cursor : Cursor
  loaded : Nat
  leading : Bool

/-- Blanks and breaks inside a plain scalar. A tab before the indentation is malformed unless
nothing else stands on its line. -/
def plainGap (indent : Int) : Nat → PlainState → Option PlainState
  | 0, _ => none
  | fuel + 1, s =>
    let c := s.cursor
    match c.peek with
    | none => some s
    | some x =>
      if isSpaceOrTab x then
        if !s.leading then
          plainGap indent fuel
            { s with gap := { s.gap with blanks := s.gap.blanks ++ [x] }, cursor := c.advance 1 }
        else if x == '\t' && decide ((c.column : Int) < indent) then do
          let (_, c) ← passBlanks true c
          if isLineEnd c.peek then plainGap indent fuel { s with cursor := c } else none
        else plainGap indent fuel { s with cursor := c.advance 1 }
      else if isBreak x then
        let gap : Gap :=
          if s.leading then { s.gap with more := s.gap.more ++ ['\n'] }
          else { s.gap with broken := true, blanks := [], first := ['\n'] }
        plainGap indent fuel { s with gap := gap, cursor := passBreak c, leading := true }
      else some s

/-- How far a plain part makes the reader look: sixteen characters from its second one on, and again
behind every fifteen. -/
def plainLoaded (start length : Nat) : Nat :=
  start + 1 + (length - 1) / 15 * 15 + 16

/-- A plain scalar from here on: the rest of its text and where it ends. -/
def plainFrom (flow : Bool) (indent : Int) : Nat → PlainState → Option (List Char × PlainState)
  | 0, _ => none
  | fuel + 1, s => do
    let c := s.cursor
    if (s.leading && atMarker c) || c.sees '#' then some ([], s)
    else if flow && c.sees '-' && (c.peekAt 1).any isFlowIndicator then none
    else
      let part := plainPart flow c.rest
      let written := if part.isEmpty then [] else s.gap.text ++ part
      let s : PlainState :=
        if part.isEmpty then s
        else
          { gap := .none, cursor := c.advance part.length
            loaded := max s.loaded (plainLoaded c.index part.length), leading := false }
      if !s.cursor.peek.any fun x => isSpaceOrTab x || isBreak x then some (written, s)
      else
        let s ← plainGap indent (s.cursor.rest.length + 1) s
        if !flow && decide ((s.cursor.column : Int) < indent) then some (written, s)
        else
          let (later, s) ← plainFrom flow indent fuel s
          return (written ++ later, s)

/-- Empty lines and indentation before a line of a block scalar: the breaks among them and the
place. -/
def blockIndent (indent : Nat) : Nat → Nat → Cursor → Option (Nat × Cursor)
  | 0, _, _ => none
  | fuel + 1, breaks, c =>
    let spaces := (c.ahead (· == ' ')).length
    let c := c.advance (min spaces (indent - c.column))
    if c.peek.any isBreak then blockIndent indent fuel (breaks + 1) (passBreak c)
    else some (breaks, c)

/-- Empty lines and indentation before the first line of a block scalar: the widest indentation, the
breaks and the place. -/
def firstIndent : Nat → Nat → Nat → Cursor → Option (Nat × Nat × Cursor)
  | 0, _, _, _ => none
  | fuel + 1, widest, breaks, c =>
    let c := c.skipWhile (· == ' ')
    let widest := max widest c.column
    if c.peek.any isBreak then firstIndent fuel widest (breaks + 1) (passBreak c)
    else some (widest, breaks, c)

/-- The place behind a line of a block scalar. The characters that have been looked at before count
one each; what lies behind them counts by its bytes. -/
def passBlockLine (loaded : Nat) (c : Cursor) : Cursor :=
  let line := c.ahead inLine
  let known := loaded - c.index
  let width := (line.take known).length + Text.Utf8.textWidth (line.drop known)
  { c with rest := c.rest.drop line.length, index := c.index + width, column := c.column + width }

/-- How far the indentation before a line of a block scalar makes the reader look: sixteen
characters at a time, and two behind it. -/
def indentLoaded (c : Cursor) : Nat :=
  max (c.index - c.column + 16 * ((c.column - 1) / 16 + 1)) (c.index + 2)

/-- The lines of a block scalar. -/
structure BlockLines where
  text : List Char
  /-- Whether a break stands behind the last line. -/
  leading : Bool
  /-- How many breaks stand behind that. -/
  trailing : Nat
  cursor : Cursor

/-- The lines of a block scalar from here on. `blank` tells whether the line before began with a
blank. -/
def blockLines (literal : Bool) (indent : Nat) :
    Nat → Bool → Nat → Bool → Nat → Cursor → Option BlockLines
  | 0, _, _, _, _, _ => none
  | fuel + 1, leading, trailing, blank, loaded, c =>
    if c.column != indent || c.atEnd || (indent == 0 && atMarkerOf '.' c) then
      some ⟨[], leading, trailing, c⟩
    else do
      let startsBlank := c.peek.any isSpaceOrTab
      let breaks := List.replicate trailing '\n'
      let joint :=
        if !literal && leading && !blank && !startsBlank then
          breaks ++ (if trailing = 0 then [' '] else [])
        else (if leading then ['\n'] else []) ++ breaks
      let line := c.ahead inLine
      let c := passBlockLine loaded c
      if c.atEnd then return ⟨joint ++ line, false, 0, c⟩
      else
        let c := passBreak c
        let (trailing, after) ← blockIndent indent (c.rest.length + 1) 0 c
        let later ←
          blockLines literal indent fuel true trailing startsBlank (indentLoaded after) after
        return { later with text := joint ++ line ++ later.text }

/-- A block scalar: its text, where its text starts, and the place behind it. -/
structure BlockScalar where
  text : List Char
  start : Nat
  cursor : Cursor

/-- A block scalar behind its `|` or `>`, which stands at `opening`, in a block with the given
indentation. -/
def blockScalar (literal : Bool) (outer : Int) (loaded : Nat) (opening c : Cursor) :
    Option BlockScalar := do
  let (chomping, increment, c) ← Content.blockHeader c
  let (_, c) ← passBlanks true c
  if !isLineEnd c.peek then none
  else
    let broken := !c.atEnd
    let c := passBreak c
    if c.sees '\t' then none
    else
      let given : Option Nat := increment.map fun n => if 0 ≤ outer then outer.toNat + n else n
      let (indent, breaks, after) ← match given with
        | some indent => (blockIndent indent (c.rest.length + 1) 0 c).map fun (breaks, after) =>
          (indent, breaks, after)
        | none => (firstIndent (c.rest.length + 1) 0 0 c).map fun (widest, breaks, after) =>
          let indent := max widest (outer + 1).toNat
          (if 0 < outer then max indent 1 else indent, breaks, after)
      if after.atEnd then
        let first := if broken then ['\n'] else []
        let text := match chomping with
          | .strip => []
          | .clip => if after.line = opening.line then [] else first
          | .keep => if after.line = opening.line then []
            else if breaks = 0 then first else List.replicate breaks '\n'
        return ⟨text, opening.index, after⟩
      else if after.column < indent && decide (outer < after.column) then none
      else
        let loaded := match given with
          | some _ => indentLoaded after
          | none => max loaded (after.index + 1)
        let lines ← blockLines literal indent (after.rest.length + 1) false breaks false loaded after
        let ending := match chomping with
          | .strip => []
          | .clip | .keep =>
            (if lines.leading then ['\n'] else [])
              ++ (if lines.cursor.atEnd && decide (max indent 1 ≤ lines.cursor.column) then ['\n']
                else [])
        let kept := match chomping with
          | .keep => List.replicate lines.trailing '\n'
          | _ => []
        return ⟨lines.text ++ ending ++ kept, after.index, lines.cursor⟩

end ChartLift.Yaml.Layout
