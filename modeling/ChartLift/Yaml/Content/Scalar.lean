import ChartLift.Yaml.Content.Lexer

/-!
# Scalars of the content reader

The text of plain, quoted and block scalars. Line breaks inside plain and quoted scalars are folded:
a single break becomes a space, further ones are kept.
-/

namespace ChartLift.Yaml.Content

/-- What a folded break stands for: a line feed alone is a space, with more breaks behind it it
goes; every other break is kept. -/
def folded (first : List Char) (more : List Char) : List Char :=
  if first.head? = some '\n' then (if more.isEmpty then [' '] else more) else first ++ more

/-- The blanks and breaks between two parts of a scalar. -/
structure Gap where
  /-- Whether the gap holds a break. -/
  broken : Bool
  blanks : List Char
  first : List Char
  more : List Char

namespace Gap

/-- No gap. -/
def none : Gap := ⟨false, [], [], []⟩

/-- What a gap stands for. -/
def text (gap : Gap) : List Char :=
  if gap.broken then folded gap.first gap.more else gap.blanks

end Gap

/-- Blanks and breaks from here on. A tab before `indent` in a line of its own is malformed; where
there is no such rule, `indent` is zero. -/
def takeGap (indent : Int) : Nat → Gap → Cursor → Option (Gap × Cursor)
  | 0, _, _ => none
  | fuel + 1, gap, c =>
    match c.peek with
    | none => some (gap, c)
    | some x =>
      if isSpaceOrTab x then
        if gap.broken then
          if x == '\t' && decide ((c.column : Int) < indent) then none
          else takeGap indent fuel gap (c.advance 1)
        else takeGap indent fuel { gap with blanks := gap.blanks ++ [x] } (c.advance 1)
      else if isBreak x then
        let (text, after) := takeBreak c
        if gap.broken then takeGap indent fuel { gap with more := gap.more ++ text } after
        else takeGap indent fuel { gap with broken := true, blanks := [], first := text } after
      else some (gap, c)

/-- Whether a plain scalar ends at this character, `next` being the one behind it. -/
def endsPlain (flow : Bool) (x : Char) (next : Option Char) : Bool :=
  (x == ':' && isBlankOrEnd next) || (flow && isFlowIndicator x)

/-- Whether a colon stands before a character of flow structure, which no plain scalar in a flow
collection may hold. -/
def strayColon (flow : Bool) (x : Char) (next : Option Char) : Bool :=
  flow && x == ':' && (match next with
    | some y => isFlowIndicator y || y == '?'
    | none => false)

/-- The part of a plain scalar up to the next blank or its end. -/
def plainPart (flow : Bool) : List Char → Option (List Char)
  | [] => some []
  | x :: rest =>
    if !isSolid x then some []
    else if strayColon flow x rest.head? then none
    else if endsPlain flow x rest.head? then some []
    else (plainPart flow rest).map (x :: ·)

/-- A plain scalar from here on, `gap` being what was passed just before: the rest of its text, the
place behind it, and whether breaks were passed at its end. -/
def plainFrom (flow : Bool) (indent : Int) :
    Nat → Gap → Cursor → Option (List Char × Cursor × Bool)
  | 0, _, _ => none
  | fuel + 1, gap, c =>
    if atMarker c || c.sees '#' then some ([], c, gap.broken)
    else do
      let part ← plainPart flow c.rest
      let written := if part.isEmpty then [] else gap.text ++ part
      let gap := if part.isEmpty then gap else Gap.none
      let c := c.advance part.length
      if !c.peek.any fun x => isSpaceOrTab x || isBreak x then some (written, c, gap.broken)
      else
        let (gap, c) ← takeGap indent (c.rest.length + 1) gap c
        if !flow && decide ((c.column : Int) < indent) then some (written, c, gap.broken)
        else
          let (later, c, broken) ← plainFrom flow indent fuel gap c
          return (written ++ later, c, broken)

/-- What an escape of one character stands for. -/
def escape? : Char → Option Char
  | '0' => some '\x00'
  | 'a' => some '\x07'
  | 'b' => some '\x08'
  | 't' => some '\t'
  | '\t' => some '\t'
  | 'n' => some '\n'
  | 'v' => some '\x0b'
  | 'f' => some '\x0c'
  | 'r' => some '\r'
  | 'e' => some '\x1b'
  | ' ' => some ' '
  | '"' => some '"'
  | '/' => some '/'
  | '\\' => some '\\'
  | 'N' => some '\x85'
  | '_' => some '\xa0'
  | 'L' => some '\u2028'
  | 'P' => some '\u2029'
  | _ => none

/-- How many hexadecimal digits follow an escape. -/
def escapeDigits? : Char → Option Nat
  | 'x' => some 2
  | 'u' => some 4
  | 'U' => some 8
  | _ => none

/-- The character with a code point, surrogates having none. -/
def characterOf? (code : Nat) : Option Char :=
  if code < 0xD800 ∨ (0xDFFF < code ∧ code ≤ 0x10FFFF) then some (Char.ofNat code) else none

/-- An escape behind its backslash: the character and how many characters write it. -/
def takeEscape (rest : List Char) : Option (Char × Nat) :=
  match rest with
  | [] => none
  | x :: after =>
    match escape? x with
    | some c => some (c, 1)
    | none => do
      let count ← escapeDigits? x
      let digits := after.take count
      if digits.length < count then none
      else
        let code ← hexNumber? digits
        let c ← characterOf? code
        return (c, count + 1)

/-- The part of a quoted scalar up to the next blank, break or closing quote: its text, the place
behind it, and whether it ends with an escaped break. -/
def quotedPart (double : Bool) : Nat → Cursor → Option (List Char × Cursor × Bool)
  | 0, _ => none
  | fuel + 1, c =>
    let goOn (x : Char) (count : Nat) : Option (List Char × Cursor × Bool) :=
      (quotedPart double fuel (c.advance count)).map fun (part, c, escaped) => (x :: part, c, escaped)
    match c.rest with
    | [] => some ([], c, false)
    | x :: rest =>
      if !isSolid x then some ([], c, false)
      else if !double && x == '\'' then
        if rest.head? == some '\'' then goOn '\'' 2 else some ([], c, false)
      else if double && x == '"' then some ([], c, false)
      else if double && x == '\\' then
        match rest.head? with
        | none => none
        | some y =>
          if isBreak y then some ([], (takeBreak (c.advance 1)).2, true)
          else
            match takeEscape rest with
            | none => none
            | some (z, count) => goOn z (count + 1)
      else goOn x 1

/-- A quoted scalar from here on: the rest of its text and the place behind the closing quote. -/
def quotedFrom (double : Bool) : Nat → Cursor → Option (List Char × Cursor)
  | 0, _ => none
  | fuel + 1, c => do
    if atMarker c || c.atEnd then none
    else
      let (part, c, escaped) ← quotedPart double (c.rest.length + 1) c
      if !escaped && c.sees (if double then '"' else '\'') then some (part, c.advance 1)
      else
        let gap : Gap := if escaped then ⟨true, [], [], []⟩ else .none
        let (gap, c) ← takeGap 0 (c.rest.length + 1) gap c
        let (later, c) ← quotedFrom double fuel c
        return (part ++ gap.text ++ later, c)

/-- What happens to the breaks at the end of a block scalar. -/
inductive Chomping where
  | strip
  | clip
  | keep
  deriving DecidableEq, Repr

/-- The chomping that an indicator asks for. -/
def chomping? : Char → Option Chomping
  | '+' => some .keep
  | '-' => some .strip
  | _ => none

/-- The header of a block scalar behind its `|` or `>`: the chomping, the indentation where it is
given, and the place behind them. Indentation is never zero. -/
def blockHeader (c : Cursor) : Option (Chomping × Option Nat × Cursor) :=
  let digit? (x : Option Char) : Option Nat := (x.filter Char.isDigit).map fun x => x.toNat - 48
  let (chomping, c) := match c.peek.bind chomping? with
    | some chomping => (some chomping, c.advance 1)
    | none => (none, c)
  let (increment, c) := match digit? c.peek with
    | some n => (some n, c.advance 1)
    | none => (none, c)
  let (chomping, c) := match chomping, increment, c.peek.bind chomping? with
    | none, some _, some chomping => (some chomping, c.advance 1)
    | chomping, _, _ => (chomping, c)
  if increment = some 0 then none else some (chomping.getD .clip, increment, c)

/-- Indentation and empty lines before a line of a block scalar. While the indentation is not known,
the widest of these lines gives it. -/
def blockBreaks (indent : Option Nat) :
    Nat → Nat → List Char → Cursor → Option (Nat × List Char × Cursor)
  | 0, _, _, _ => none
  | fuel + 1, widest, breaks, c =>
    let spaces := c.ahead (· == ' ')
    let c := c.advance (match indent with
      | some indent => min spaces.length (indent - c.column)
      | none => spaces.length)
    let widest := max widest c.column
    if c.sees '\t' && (match indent with
      | some indent => decide (c.column < indent)
      | none => true) then none
    else if (c.peek.any isBreak) then
      let (text, c) := takeBreak c
      blockBreaks indent fuel widest (breaks ++ text) c
    else some (widest, breaks, c)

/-- The lines of a block scalar from here on: the rest of its text, the break behind its last line,
the breaks behind that, and the place. `blank` tells whether the line before began with a blank. -/
def blockLines (literal : Bool) (indent : Nat) :
    Nat → List Char → List Char → Bool → Cursor →
      Option (List Char × List Char × List Char × Cursor)
  | 0, _, _, _, _ => none
  | fuel + 1, leading, trailing, blank, c =>
    if c.column != indent || c.atEnd then some ([], leading, trailing, c)
    else do
      let startsBlank := c.peek.any isSpaceOrTab
      let joint :=
        if !literal && leading.head? == some '\n' && !blank && !startsBlank then
          (if trailing.isEmpty then [' '] else []) ++ trailing
        else leading ++ trailing
      let line := c.ahead inLine
      let (leading, after) := takeBreak (c.advance line.length)
      let (_, trailing, c) ← blockBreaks (some indent) (after.rest.length + 1) 0 [] after
      let (later, leading, trailing, c) ←
        blockLines literal indent fuel leading trailing startsBlank c
      return (joint ++ line ++ later, leading, trailing, c)

/-- A block scalar behind its `|` or `>`, in a block with the given indentation. -/
def blockScalar (literal : Bool) (outer : Int) (c : Cursor) : Option (List Char × Cursor) := do
  let (chomping, increment, c) ← blockHeader c
  let c ← toLineEnd c
  let (_, c) := takeBreak c
  let given : Option Nat := increment.map fun n => if 0 ≤ outer then outer.toNat + n else n
  let (widest, breaks, c) ← blockBreaks given (c.rest.length + 1) 0 [] c
  let indent := given.getD (max widest (max (outer + 1).toNat 1))
  let (text, leading, trailing, c) ←
    blockLines literal indent (c.rest.length + 1) [] breaks false c
  let ending := match chomping with
    | .strip => []
    | .clip => leading
    | .keep => leading ++ trailing
  return (text ++ ending, c)

end ChartLift.Yaml.Content
