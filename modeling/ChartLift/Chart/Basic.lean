import ChartLift.Extraction.Run
import ChartLift.Files.Path

/-!
# Charts

A chart is the list of its files, each named from the chart's root. Those below `templates/` are the
documents that rules apply to; all others but the values are carried through as they are.
-/

namespace ChartLift

/-- A chart that has been read. -/
structure Chart where
  root : FilePath
  /-- The files, by ascending name. -/
  files : List Manifest
  deriving Inhabited

namespace Chart

/-- The directory of the templates. -/
def templatesDirectory : String := "templates/"

/-- Whether a name is that of a template. -/
def isTemplate (name : String) : Bool := templatesDirectory.toList.isPrefixOf name.toList

/-- The templates. -/
def templates (chart : Chart) : List Manifest := chart.files.filter (isTemplate ·.name)

/-- The files that are neither templates nor the values. -/
def passthrough (chart : Chart) : List Manifest :=
  chart.files.filter fun file => !isTemplate file.name && file.name != valuesName

/-- The file of a name. -/
def file? (chart : Chart) (name : String) : Option Manifest :=
  chart.files.find? (·.name == name)

/-- The file of the values. -/
def values? (chart : Chart) : Option Manifest := chart.file? valuesName

end Chart

end ChartLift
