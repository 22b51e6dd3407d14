import ChartLift.Chart.Basic
import ChartLift.Files.Tree
import ChartLift.Glob.Set
import ChartLift.Run.Fault

/-!
# Loading charts

Which files of a directory make up a chart: those that the patterns include and do not exclude. The
directories that a run writes to are excluded where they lie below the root as it is written.
-/

namespace ChartLift

/-- Where a chart is and what of it to read. -/
structure Selection where
  root : FilePath
  included : List String
  excluded : List String
  /-- Directories that are left out. -/
  skipped : List FilePath

namespace Selection

/-- The pattern of what lies in a directory, where that is written as one below the root. -/
def patternOf? (root directory : FilePath) : Option String :=
  match directory.stepsBehind? root with
  | none => none
  | some steps =>
    let name := FilePath.nameOf steps
    if name.isEmpty then none else some (name ++ "/**")

/-- All patterns of files to leave out. -/
def exclusions (selection : Selection) : List String :=
  "**/.git/**" :: selection.skipped.filterMap (patternOf? selection.root) ++ selection.excluded

/-- The files of the root that some patterns select, by ascending name. -/
def filesIn (files : FileTree) (root : Place) (included excluded : List Glob) : List Manifest :=
  let named := (files.filesBelow root).map fun (place, data) => (⟨place.display, data⟩ : Manifest)
  let selected := named.filter fun file =>
    Glob.anyMatch included file.name && !Glob.anyMatch excluded file.name
  selected.mergeSort fun a b => decide (a.name ≤ b.name)

end Selection

namespace Chart

/-- The topic of notes about charts. -/
def topic : String := "helm_dump::project"

/-- Reads a chart, and says what has been read. -/
def load (selection : Selection) (files : FileTree) : List Note × Except RunFault Chart :=
  match files.directory? selection.root with
  | none => ([], .error (.noRoot selection.root))
  | some root =>
    match Glob.readAll selection.included with
    | .error (pattern, fault) => ([], .error (.malformedPattern pattern fault))
    | .ok included =>
      match Glob.readAll selection.exclusions with
      | .error (pattern, fault) => (Glob.setNotes included, .error (.malformedPattern pattern fault))
      | .ok excluded =>
        let notes := Glob.setNotes included ++ Glob.setNotes excluded
        let found := Selection.filesIn files root included excluded
        if found.any (·.name == RunFault.chartFile) then
          let said := "loaded " ++ toString found.length ++ " files from " ++ selection.root.text
          (notes ++ [⟨.info, topic, said⟩], .ok ⟨selection.root, found⟩)
        else (notes, .error (.notAChart selection.root))

end Chart

end ChartLift
