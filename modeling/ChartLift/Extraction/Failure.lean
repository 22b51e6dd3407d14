import ChartLift.KeyTemplate.Basic
import ChartLift.Manifest.Basic
import ChartLift.Path.Reading
import ChartLift.Rewrite.Match
import ChartLift.Text.Quoted
import ChartLift.Value.Location
import ChartLift.ValuesTree.Basic

/-!
# Failures

What can go wrong while a value is moved out of a manifest, by cause, with one wording for each
cause.
-/

namespace ChartLift

/-- What goes wrong while a value is moved. -/
inductive Failure where
  /-- The manifest does not decode. -/
  | decode (fault : DecodeFault)
  /-- The manifest decodes but has no layout tree. -/
  | unindexed
  /-- The text of a path is malformed. -/
  | malformedPath (text : String) (fault : PathFault)
  /-- A path leads nowhere in an object. -/
  | unlocated (path : Path) (fault : LocationFault)
  /-- A key template is malformed or does not render. -/
  | template (fault : TemplateFault)
  /-- A values key does not fit into the tree of values. -/
  | insertion (fault : InsertFault)
  /-- A values key already holds another value, by an earlier document of the run. -/
  | valueConflict (key existing new owner : String)
  /-- There is nothing at the path that a reference could take the place of. -/
  | unmatched (fault : Rewrite.MatchFault)
  /-- Two patches overlap. -/
  | overlap (overlap : Rewrite.Overlap)

namespace Failure

/-- Why a path cannot be resolved. -/
def resolution (path reason : String) : String :=
  "cannot resolve path " ++ Text.quoted path ++ ": " ++ reason

/-- The failure in words. -/
def message : Failure → String
  | decode fault => "cannot decode document: " ++ fault.message
  | unindexed => "cannot index document for rewriting: " ++ malformedYaml
  | malformedPath text fault => resolution text fault.message
  | unlocated path fault => resolution path.canonical fault.message
  | template fault => "key template error: " ++ fault.message
  | insertion (.invalidKey key) => "invalid values key " ++ Text.quoted key
  | insertion (.conflict key place) =>
    "values key " ++ Text.quoted key ++ " conflicts with the existing value at " ++ Text.quoted place
  | valueConflict key existing new owner =>
    "values key " ++ Text.quoted key ++ " already holds " ++ Text.quoted existing ++ " from " ++ owner
      ++ ", refusing " ++ Text.quoted new
  | unmatched (.notFound path) => "no mapping entry found at " ++ path
  | unmatched (.unpatchable path refusal) =>
    "node at " ++ path ++ " cannot be rewritten: " ++ refusal.message
  | overlap found =>
    "patch for " ++ found.path ++ " overlaps the patch planned for " ++ found.other

end Failure

end ChartLift
