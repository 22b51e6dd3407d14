import ChartLift.Value.Basic
import ChartLift.Text.Split
import ChartLift.Yaml.Block.Document

/-!
# Values trees

Nested mappings addressed by dotted keys. A key is a leaf or a branch, never both: inserting below a
leaf, or a leaf in place of a branch, is refused and leaves the tree as it is.
-/

namespace ChartLift

/-- The segments of a dotted key. -/
def keySegments (key : String) : List String :=
  (Text.splitAt '.' key.toList).map String.ofList

/-- A tree of values under dotted keys. -/
structure ValuesTree where
  root : Entries
  deriving Inhabited

/-- What keeps a value from being inserted. -/
inductive InsertFault where
  /-- A key with an empty segment. -/
  | invalidKey (key : String)
  /-- A key that runs through a leaf, or ends at a branch, at another key. -/
  | conflict (key place : String)
  deriving DecidableEq, Repr

namespace ValuesTree

/-- The tree without values. -/
def empty : ValuesTree := ⟨[]⟩

/-- Inserts a value below a list of segments: the entries after it and the leaf that was there, or
the segments up to the place of a conflict. -/
def insertAt (entries : Entries) : List String → Value → Except (List String) (Entries × Option Value)
  | [], _ => .error []
  | [leaf], value =>
    match Entries.find? entries leaf with
    | some (.mapping _) => .error [leaf]
    | found => .ok (Entries.bind entries leaf value, found)
  | segment :: rest, value =>
    let inner : Except (List String) Entries :=
      match Entries.find? entries segment with
      | none => .ok []
      | some (.mapping inner) => .ok inner
      | some _ => .error [segment]
    match inner with
    | .error place => .error place
    | .ok inner =>
      match insertAt inner rest value with
      | .error place => .error (segment :: place)
      | .ok (grown, previous) =>
        .ok (Entries.bind entries segment (.mapping grown), previous)

/-- Inserts a value at a dotted key: the tree after it and the leaf that was there. -/
def insert (tree : ValuesTree) (key : String) (value : Value) :
    Except InsertFault (ValuesTree × Option Value) :=
  let segments := keySegments key
  if segments.any (· == "") then .error (.invalidKey key)
  else
    match insertAt tree.root segments value with
    | .error place => .error (.conflict key (".".intercalate place))
    | .ok (root, previous) => .ok (⟨root⟩, previous)

/-- The value below a list of segments. -/
def getAt (entries : Entries) : List String → Option Value
  | [] => none
  | [segment] => Entries.find? entries segment
  | segment :: rest =>
    match Entries.find? entries segment with
    | some (.mapping inner) => getAt inner rest
    | _ => none

/-- The value at a dotted key, leaf or branch. -/
def get? (tree : ValuesTree) (key : String) : Option Value :=
  getAt tree.root (keySegments key)

mutual

/-- How many leaves a value counts for. -/
def leavesOf : Value → Nat
  | .mapping entries => leaves entries
  | _ => 1

/-- How many leaves entries have. -/
def leaves : List (String × Value) → Nat
  | [] => 0
  | (_, value) :: rest => leavesOf value + leaves rest

end

/-- The number of leaves; an empty mapping counts for nothing. -/
def size (tree : ValuesTree) : Nat := leaves tree.root

/-- Whether a tree has no leaves. -/
def isEmpty (tree : ValuesTree) : Bool := tree.size == 0

/-- The tree as one value. -/
def toValue (tree : ValuesTree) : Value := .mapping tree.root

/-- The tree as a YAML document. -/
def document (tree : ValuesTree) : String :=
  Yaml.Block.document tree.toValue

/-- The tree that a value seeds: a mapping as it is, null as no values. -/
def ofValue? : Value → Option ValuesTree
  | .mapping entries => some ⟨entries⟩
  | .null => some empty
  | _ => none

end ValuesTree

end ChartLift
