import ChartLift.Yaml.Content.Token
import ChartLift.Yaml.Grammar

/-!
# Nodes of the content reading

The nodes of one document, with aliases as references. An anchor's number is how many names are
bound when it is met; an alias refers to the number that its name is bound to there, and to the last
node of the document that has this number.
-/

namespace ChartLift.Yaml.Content

/-- Version 1.1 of the language: keys have to be written, and so do all versions and handles be
known. -/
def dialect : Dialect :=
  { missingKeys := false, strictDirectives := true, lastHandleOnly := false }

/-- A node of a document. -/
inductive Node where
  | alias (number : Nat)
  | scalar (number : Option Nat) (text : String) (style : ScalarStyle) (tag : Option String)
  | sequence (number : Option Nat) (tag : Option String) (items : List Node)
  | mapping (number : Option Nat) (tag : Option String) (entries : List (Node × Node))
  deriving Repr, Inhabited

/-- The names bound to anchors so far. -/
abbrev Names := List (String × Nat)

/-- How many names are bound. -/
def Names.size (names : Names) : Nat := (names.map Prod.fst).eraseDups.length

/-- Binds the name of an anchor, if there is one, and gives its number. -/
def Names.declare (names : Names) : Option String → Option Nat × Names
  | none => (none, names)
  | some name => (some names.size, (name, names.size) :: names)

mutual

/-- The node that events begin with, and the events behind it. -/
def node : Nat → Names → List EventKind → Option (Node × Names × List EventKind)
  | 0, _, _ => none
  | fuel + 1, names, events =>
    match events with
    | .alias name :: rest => (names.lookup name).map fun number => (.alias number, names, rest)
    | .scalar text style tag anchor :: rest =>
      let (number, names) := names.declare anchor
      some (.scalar number text style tag, names, rest)
    | .sequenceStart tag anchor :: rest =>
      let (number, names) := names.declare anchor
      (nodes fuel names rest).map fun (items, names, rest) => (.sequence number tag items, names, rest)
    | .mappingStart tag anchor :: rest =>
      let (number, names) := names.declare anchor
      (pairs fuel names rest).map fun (entries, names, rest) =>
        (.mapping number tag entries, names, rest)
    | _ => none

/-- The items up to the end of a sequence. -/
def nodes : Nat → Names → List EventKind → Option (List Node × Names × List EventKind)
  | 0, _, _ => none
  | fuel + 1, names, events =>
    match events with
    | .sequenceEnd :: rest => some ([], names, rest)
    | _ => do
      let (item, names, rest) ← node fuel names events
      let (items, names, rest) ← nodes fuel names rest
      return (item :: items, names, rest)

/-- The entries up to the end of a mapping. -/
def pairs : Nat → Names → List EventKind → Option (List (Node × Node) × Names × List EventKind)
  | 0, _, _ => none
  | fuel + 1, names, events =>
    match events with
    | .mappingEnd :: rest => some ([], names, rest)
    | _ => do
      let (key, names, rest) ← node fuel names events
      let (value, names, rest) ← node fuel names rest
      let (entries, names, rest) ← pairs fuel names rest
      return ((key, value) :: entries, names, rest)

end

mutual

/-- The numbered nodes of a node, in the order of the document. -/
def Node.numbered : Node → List (Nat × Node)
  | .alias _ => []
  | .scalar number text style tag =>
    number.toList.map fun n => (n, .scalar number text style tag)
  | .sequence number tag items =>
    (number.toList.map fun n => (n, .sequence number tag items)) ++ numberedItems items
  | .mapping number tag entries =>
    (number.toList.map fun n => (n, .mapping number tag entries)) ++ numberedEntries entries

/-- The numbered nodes of items. -/
def numberedItems : List Node → List (Nat × Node)
  | [] => []
  | item :: rest => item.numbered ++ numberedItems rest

/-- The numbered nodes of entries. -/
def numberedEntries : List (Node × Node) → List (Nat × Node)
  | [] => []
  | (key, value) :: rest => key.numbered ++ value.numbered ++ numberedEntries rest

end

/-- A document: its node, the nodes that aliases refer to, and the number of its events. -/
structure Document where
  root : Node
  /-- The node of each number, the last one first. -/
  targets : List (Nat × Node)
  eventCount : Nat
  deriving Repr, Inhabited

/-- What a text holds. -/
inductive Stream where
  /-- No document at all. -/
  | empty
  /-- A first document, and whether anything but the end follows it. -/
  | document (document : Document) (more : Bool)
  /-- A first document that is malformed. -/
  | malformed

/-- Whether an event belongs to a document's node. -/
def isNodeEvent : EventKind → Bool
  | .documentStart | .documentEnd | .streamEnd => false
  | _ => true

/-- What a text holds; what stands behind its first document may be malformed. -/
def readStream (text : List Char) : Stream :=
  let said : List EventKind := ((tokens text).events dialect).events.map Event.kind
  match said with
  | .streamEnd :: _ => .empty
  | .documentStart :: events =>
    match node (events.length + 1) [] events with
    | some (root, _, .documentEnd :: rest) =>
      let count := (events.takeWhile isNodeEvent).length
      .document ⟨root, root.numbered.reverse, count⟩ (rest != [.streamEnd])
    | _ => .malformed
  | _ => .malformed

end ChartLift.Yaml.Content
