import ChartLift.Yaml.Content.Node
import ChartLift.Yaml.Content.Resolution

/-!
# Values of the content reading

The value that a document means: aliases are expanded, keys are the texts of scalars, and of equal
keys the last one counts. Collections nest at most 128 deep, and aliases are followed at most a
hundred times per event of the document.
-/

namespace ChartLift.Yaml.Content

/-- How deep collections may nest. -/
def maximalDepth : Nat := 128

/-- How often the aliases of a document may be followed. -/
def Document.maximalJumps (document : Document) : Nat := 100 * document.eventCount

/-- The node that a node stands for, and how often aliases have been followed by then. -/
def Document.follow (document : Document) (jumps : Nat) : Node → Option (Node × Nat)
  | .alias number =>
    if document.maximalJumps < jumps + 1 then none
    else (document.targets.lookup number).map fun node => (node, jumps + 1)
  | node => some (node, jumps)

/-- The value of a scalar. -/
def scalarValue? (text : String) (style : ScalarStyle) (tag : Option String) : Option Value :=
  match tag with
  | some tag => taggedValue? tag text
  | none => if style = .plain then plainValue? text else some (.string text)

/-- The value of a node within collections that may nest `depth` deep, and how often aliases have
been followed by then. -/
def Document.value (document : Document) (depth jumps : Nat) (node : Node) : Option (Value × Nat) :=
  match document.follow jumps node with
  | none => none
  | some (.alias _, _) => none
  | some (.scalar _ text style tag, jumps) =>
    (scalarValue? text style tag).map fun value => (value, jumps)
  | some (.sequence _ tag items, jumps) =>
    if tag.any isLocalTag then none
    else
      match depth with
      | 0 => none
      | depth + 1 =>
        let step (state : Option (List Value × Nat)) (item : Node) : Option (List Value × Nat) := do
          let (values, jumps) ← state
          let (value, jumps) ← document.value depth jumps item
          return (value :: values, jumps)
        (items.foldl step (some ([], jumps))).map fun (values, jumps) =>
          (.sequence values.reverse, jumps)
  | some (.mapping _ tag entries, jumps) =>
    if tag.any isLocalTag then none
    else
      match depth with
      | 0 => none
      | depth + 1 =>
        let step (state : Option (Entries × Nat)) (entry : Node × Node) : Option (Entries × Nat) := do
          let (values, jumps) ← state
          match ← document.follow jumps entry.1 with
          | (.scalar _ key _ _, jumps) =>
            let (value, jumps) ← document.value depth jumps entry.2
            return (values.bind key value, jumps)
          | _ => none
        (entries.foldl step (some ([], jumps))).map fun (values, jumps) =>
          (.mapping values, jumps)

/-- The value that a document means. -/
def Document.toValue? (document : Document) : Option Value :=
  (document.value maximalDepth 0 document.root).map Prod.fst

/-- The value of the first document of a text; a text without documents means null. -/
def firstValue? (text : List Char) : Option Value :=
  match readStream text with
  | .empty => some .null
  | .document document _ => document.toValue?
  | .malformed => none

/-- The value of a text that holds one document at most. -/
def onlyValue? (text : List Char) : Option Value :=
  match readStream text with
  | .empty => some .null
  | .document document more => if more then none else document.toValue?
  | .malformed => none

end ChartLift.Yaml.Content
