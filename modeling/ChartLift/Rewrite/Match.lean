import ChartLift.Rewrite.Patch
import ChartLift.Rewrite.Walk

/-!
# Matching entries

The patches for the entries at a path. The bytes that give way reach from behind the entry's `:` to
the start of a line: that of the next token, or an earlier one where only blank lines and comments
no deeper than the key stand between.
-/

namespace ChartLift.Rewrite

open Text (Bytes)
open Yaml.Layout (Entry Tree)

/-- What keeps a node from being rewritten. -/
inductive Refusal where
  | isRoot
  | isItem
  | inFlow
  | noIndicator
  deriving DecidableEq, Repr

/-- The reason in words. -/
def Refusal.message : Refusal → String
  | .isRoot => "the document root has no entry to rewrite"
  | .isItem => "sequence items have no key to keep"
  | .inFlow => "entries of flow collections cannot hold a multi-line expression"
  | .noIndicator => "value indicator not found"

/-- What comes of a path that has no patches. -/
inductive MatchFault where
  /-- No entry or node stands at the path. -/
  | notFound (path : String)
  /-- None that stands there can be rewritten; the first refusal tells why. -/
  | unpatchable (path : String) (refusal : Refusal)
  deriving DecidableEq, Repr

/-- Bytes of a line other than its end. -/
def inLine (b : UInt8) : Bool := b != 10

/-- Blanks inside a line. -/
def isLineBlank (b : UInt8) : Bool := b == 32 || b == 9 || b == 13

/-- Where the line of an offset starts. -/
def lineStart (source : Bytes) (offset : Nat) : Nat :=
  let before := source.take offset
  before.length - (before.reverse.takeWhile inLine).length

/-- The line of an offset does not start behind it. -/
theorem lineStart_le (source : Bytes) (offset : Nat) : lineStart source offset ≤ offset := by
  have : (source.take offset).length ≤ offset := List.length_take_le offset source
  simp only [lineStart]; omega

/-- Where the line of an offset ends: at its line feed, or at the end of the source. -/
def lineEnd (source : Bytes) (offset : Nat) : Nat :=
  offset + ((source.drop offset).takeWhile inLine).length

/-- Blank lines, and comments no deeper than the key, belong to what follows an entry. -/
def isTrivia (keyColumn : Nat) (line : Bytes) : Bool :=
  match line.dropWhile isLineBlank with
  | [] => true
  | b :: _ =>
    if b == 10 then true
    else if b == 35 then decide ((line.takeWhile (· == 32)).length ≤ keyColumn)
    else false

/-- The start of the first of the lines that belong to what follows an entry; they reach up to
`stop` and none of them starts before `floor`. -/
def triviaStart (source : Bytes) (floor keyColumn stop : Nat) : Nat :=
  if _h : floor < stop then
    let previous := lineStart source (stop - 1)
    if isTrivia keyColumn ((source.take stop).drop previous) then
      triviaStart source floor keyColumn previous
    else stop
  else stop
termination_by stop
decreasing_by have := lineStart_le source (stop - 1); omega

/-- Whether a value begins on the line of a `:`. -/
def beginsInline (source : Bytes) (colon : Nat) : Bool :=
  let rest := ((source.drop (colon + 1)).takeWhile inLine).dropWhile isLineBlank
  !rest.isEmpty && rest.head? != some 35

/-- The last byte kept before the reference that takes an entry's value, and the first one kept
behind it. -/
def entrySpan (source : Bytes) (entry : Entry) (colon : Nat) : Nat × Nat :=
  let length := source.length
  if length = 0 then (0, 0)
  else
    let colon := min colon (length - 1)
    let keep :=
      if beginsInline source colon && source[colon + 1]? == some 32 then colon + 1 else colon
    let floor := min (lineEnd source colon + 1) length
    let next := entry.value.span.stop
    let stop := if length ≤ next then length else lineStart source next
    let keyColumn := entry.keySpan.start - lineStart source entry.keySpan.start
    (keep, max (triviaStart source floor keyColumn stop) floor)

/-- What a visit at the target comes to: a patch, a refusal, or nothing for the value of an entry.
-/
def meet (target : String) (source : Bytes) (visited : Visited) : Option (Except Refusal Patch) :=
  match visited with
  | .value _ => none
  | .root _ => some (.error .isRoot)
  | .item _ _ => some (.error .isItem)
  | .entry _ true => some (.error .inFlow)
  | .entry entry false =>
    match entry.indicator with
    | none => some (.error .noIndicator)
    | some colon =>
      let (keep, resume) := entrySpan source entry colon
      some (.ok ⟨target, keep, resume⟩)

/-- What the visits at a path come to, in the order of the document. -/
def meetings (tree : Tree) (source : Bytes) (path : Path) : List (Except Refusal Patch) :=
  let target := path.canonical
  (walk tree).filterMap fun visit =>
    if visit.path.canonical = target then meet target source visit.visited else none

/-- The patches for the entries at a path, of which there is at least one. -/
def patchesAt (tree : Tree) (source : Bytes) (path : Path) : Except MatchFault (List Patch) :=
  let met := meetings tree source path
  let patches := met.filterMap fun meeting => match meeting with
    | .ok patch => some patch
    | .error _ => none
  let refusal? := met.findSome? fun meeting => match meeting with
    | .ok _ => none
    | .error refusal => some refusal
  if !patches.isEmpty then .ok patches
  else
    match refusal? with
    | some refusal => .error (.unpatchable path.canonical refusal)
    | none => .error (.notFound path.canonical)

end ChartLift.Rewrite
