import ChartLift.Yaml.Grammar
import ChartLift.Yaml.Layout.Offsets
import ChartLift.Yaml.Layout.Token

/-!
# Nodes of the layout reading

The tree of a text's first document. Each node knows where it starts and where the token behind it
starts, in bytes, and each entry of a mapping where its `:` stands. The tree is built from events
alone, by one pass with a stack of the collections that are still open.
-/

namespace ChartLift.Yaml.Layout

open Text (Bytes)

/-- The language as it is read for places: keys may be left out, and of several tag directives the
last one counts. -/
def dialect : Dialect :=
  { missingKeys := true, strictDirectives := false, lastHandleOnly := true }

/-- Bytes from `start` up to the start of the token behind. -/
structure Span where
  start : Nat
  stop : Nat
  deriving DecidableEq, Repr, Inhabited

/-- An entry of a mapping. -/
structure EntryOf (α : Type) where
  /-- The text of the key; a key that is no scalar has none. -/
  key : Option String
  keySpan : Span
  /-- Where the `:` stands, if it can be located. -/
  indicator : Option Nat
  value : α
  deriving Repr, Inhabited

/-- A node of a text. -/
inductive Node where
  | scalar (span : Span) (text : String)
  | alias (span : Span)
  /-- A sequence; `flow` tells whether brackets enclose it. -/
  | sequence (span : Span) (flow : Bool) (items : List Node)
  /-- A mapping; `flow` tells whether braces enclose it. -/
  | mapping (span : Span) (flow : Bool) (entries : List (EntryOf Node))
  deriving Repr, Inhabited

/-- An entry of a mapping. -/
abbrev Entry := EntryOf Node

namespace Node

/-- Where a node stands. -/
def span : Node → Span
  | .scalar span _ => span
  | .alias span => span
  | .sequence span _ _ => span
  | .mapping span _ _ => span

/-- The text of a scalar. -/
def text? : Node → Option String
  | .scalar _ text => some text
  | _ => none

end Node

/-- Whitespace in ASCII. -/
def isAsciiBlank (b : UInt8) : Bool :=
  b == 32 || b == 9 || b == 10 || b == 12 || b == 13

/-- Whether a collection opens with a bracket, past blanks and what looks like properties. -/
def opensWith (bracket : UInt8) : Nat → Bytes → Bool
  | 0, _ => false
  | fuel + 1, bytes =>
    match bytes with
    | [] => false
    | b :: rest =>
      if b == 32 || b == 9 || b == 13 || b == 10 then opensWith bracket fuel rest
      else if b == 38 || b == 33 then opensWith bracket fuel (bytes.dropWhile (!isAsciiBlank ·))
      else b == bracket

/-- Whether the collection at an offset is enclosed in brackets. -/
def opensFlow (source : Bytes) (start : Nat) (bracket : UInt8) : Bool :=
  let bytes := source.drop start
  opensWith bracket (bytes.length + 1) bytes

/-- How many bytes a quoted key takes, behind its opening quote and with its closing one. In double
quotes a backslash takes the next byte with it; in single quotes two quotes are one. -/
def quotedLength (double : Bool) : Bytes → Nat
  | [] => 1
  | [b] => if double && b == 92 then 3 else if b == (if double then 34 else 39) then 1 else 2
  | b :: c :: rest =>
    if double then
      if b == 92 then quotedLength double rest + 2
      else if b == 34 then 1
      else quotedLength double (c :: rest) + 1
    else if b == 39 then
      if c == 39 then quotedLength double rest + 2 else 1
    else quotedLength double (c :: rest) + 1

/-- How many bytes stand before the first `:` of the line with a blank or nothing behind it. -/
def colonIn : Bytes → Option Nat
  | [] => none
  | b :: rest =>
    if b == 10 then none
    else if b == 58 && rest.head?.all isAsciiBlank then some 0
    else (colonIn rest).map (· + 1)

/-- Where the `:` behind the key at an offset stands. A quoted key is passed over as a whole. -/
def findIndicator (source : Bytes) (start : Nat) : Option Nat :=
  let bytes := source.drop start
  let skipped := match bytes with
    | 34 :: rest => quotedLength true rest + 1
    | 39 :: rest => quotedLength false rest + 1
    | _ => 0
  (colonIn (bytes.drop skipped)).map (· + (start + skipped))

/-- An event and its byte offset. -/
structure Located where
  kind : EventKind
  offset : Nat
  deriving DecidableEq, Repr

/-- A collection that is still open, with its parts so far, the last one first. -/
inductive Frame where
  | sequence (start : Nat) (items : List Node)
  /-- A mapping; between a key and its value it holds the text and the place of the key. -/
  | mapping (start : Nat) (entries : List Entry) (key : Option (Option String × Span))

/-- An open collection with one more node in it. -/
def Frame.add (source : Bytes) (node : Node) : Frame → Frame
  | .sequence start items => .sequence start (node :: items)
  | .mapping start entries none => .mapping start entries (some (node.text?, node.span))
  | .mapping start entries (some (key, keySpan)) =>
    let indicator := key.bind fun _ => findIndicator source keySpan.start
    .mapping start (⟨key, keySpan, indicator, node⟩ :: entries) none

/-- The offset of the next event; behind the last one it is the length of the source. -/
def following (source : Bytes) : List Located → Nat
  | [] => source.length
  | event :: _ => event.offset

/-- The node that events complete, and the events behind it. A collection that does not end, or ends
as another kind or between a key and its value, completes none. -/
def build (source : Bytes) (frames : List Frame) : List Located → Option (Node × List Located)
  | [] => none
  | event :: rest =>
    let span (start : Nat) : Span := ⟨start, following source rest⟩
    match event.kind, frames with
    | .scalar text _ _ _, [] => some (.scalar (span event.offset) text, rest)
    | .scalar text _ _ _, frame :: outer =>
      build source (frame.add source (.scalar (span event.offset) text) :: outer) rest
    | .alias _, [] => some (.alias (span event.offset), rest)
    | .alias _, frame :: outer =>
      build source (frame.add source (.alias (span event.offset)) :: outer) rest
    | .sequenceStart _ _, frames => build source (.sequence event.offset [] :: frames) rest
    | .mappingStart _ _, frames => build source (.mapping event.offset [] none :: frames) rest
    | .sequenceEnd, .sequence start items :: outer =>
      let node := Node.sequence (span start) (opensFlow source start 91) items.reverse
      match outer with
      | [] => some (node, rest)
      | frame :: outer => build source (frame.add source node :: outer) rest
    | .mappingEnd, .mapping start entries none :: outer =>
      let node := Node.mapping (span start) (opensFlow source start 123) entries.reverse
      match outer with
      | [] => some (node, rest)
      | frame :: outer => build source (frame.add source node :: outer) rest
    | _, _ => none

/-- Events that a node may begin with. -/
def startsNode : EventKind → Bool
  | .scalar .. | .alias .. | .sequenceStart .. | .mappingStart .. => true
  | _ => false

/-- The tree of a text. -/
structure Tree where
  /-- The node of the first document, if the text has one. -/
  root : Option Node
  /-- The number of bytes of the text. -/
  sourceLength : Nat
  deriving Repr, Inhabited

/-- The tree that events say. -/
def Tree.ofEvents? (source : Bytes) (events : List Located) : Option Tree :=
  match events.dropWhile fun event => !(startsNode event.kind || event.kind == .streamEnd) with
  | [] => some ⟨none, source.length⟩
  | event :: rest =>
    if event.kind == .streamEnd then some ⟨none, source.length⟩
    else (build source [] (event :: rest)).map fun (node, _) => ⟨some node, source.length⟩

/-- The events of the first document of a text, unless it is malformed. -/
def firstDocument? (stream : EventStream) : Option (List Event) :=
  let events := stream.events.takeWhile fun event => !(event.kind == .documentEnd)
  match stream.events.drop events.length with
  | event :: _ => some (events ++ [event])
  | [] => if stream.broken then none else some events

/-- The tree of a text, unless its first document is malformed. -/
def Tree.ofText? (text : List Char) : Option Tree :=
  (firstDocument? ((tokens text).events dialect)).bind fun events =>
    let offsets := ByteOffsets.ofText text
    Tree.ofEvents? (Text.Utf8.encode text)
      (events.map fun event => ⟨event.kind, offsets.byte event.place⟩)

end ChartLift.Yaml.Layout
