import ChartLift.Path.Basic
import ChartLift.Yaml.Layout.Node

/-!
# Walking a tree

The places of a tree in the order of the document. An entry comes right before its value and a
collection before what is in it. Entries whose key is no scalar cannot be addressed: neither they
nor what is below them is visited.
-/

namespace ChartLift.Rewrite

open Yaml.Layout (Node Entry Tree)

/-- What stands at a place. -/
inductive Visited where
  | root (node : Node)
  /-- An entry; `flow` tells whether braces enclose its mapping. -/
  | entry (entry : Entry) (flow : Bool)
  /-- The value of the entry visited just before. -/
  | value (node : Node)
  /-- An item; `flow` tells whether brackets enclose its sequence. -/
  | item (node : Node) (flow : Bool)

/-- A visit: a place and what stands there. -/
structure Visit where
  path : Path
  visited : Visited

mutual

/-- The visits below a node at a place. -/
def below (place : Path) : Node → List Visit
  | .scalar _ _ => []
  | .alias _ => []
  | .sequence _ flow items => belowItems place flow 0 items
  | .mapping _ flow entries => belowEntries place flow entries

/-- The visits to items and below them, the first of them having a position. -/
def belowItems (place : Path) (flow : Bool) (position : Nat) : List Node → List Visit
  | [] => []
  | item :: rest =>
    let here := place.child (.index position)
    ⟨here, .item item flow⟩ :: (below here item ++ belowItems place flow (position + 1) rest)

/-- The visits to entries and below them. -/
def belowEntries (place : Path) (flow : Bool) : List (Yaml.Layout.EntryOf Node) → List Visit
  | [] => []
  | ⟨none, _, _, _⟩ :: rest => belowEntries place flow rest
  | ⟨some key, keySpan, indicator, value⟩ :: rest =>
    let here := place.child (.field key)
    ⟨here, .entry ⟨some key, keySpan, indicator, value⟩ flow⟩ :: ⟨here, .value value⟩
      :: (below here value ++ belowEntries place flow rest)

end

/-- The visits to a tree. -/
def walk (tree : Tree) : List Visit :=
  match tree.root with
  | none => []
  | some root => ⟨.root, .root root⟩ :: below .root root

end ChartLift.Rewrite
