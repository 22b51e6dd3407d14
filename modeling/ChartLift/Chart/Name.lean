import ChartLift.Chart.Basic
import ChartLift.Run.Fault
import ChartLift.Text.Blank
import ChartLift.Yaml.Content.Value

/-!
# The name of a chart

The name that the chart's own description gives it. A chart that is written elsewhere gets a
directory of this name, so only what names one directory is accepted.
-/

namespace ChartLift

namespace Yaml.Content

/-- The text of a scalar, seen through aliases. -/
def Document.scalarText? (document : Document) (node : Node) : Option String :=
  match document.follow 0 node with
  | some (.scalar _ text _ _, _) => some text
  | _ => none

/-- The text of a field of a description: that of the only entry under its key, all keys being
scalars. -/
def Document.fieldText? (document : Document) (field : String) : Option String :=
  match document.root with
  | .mapping _ _ entries => do
    let keyed ← entries.mapM fun entry => (document.scalarText? entry.1).map fun key => (key, entry.2)
    match keyed.filter (·.1 == field) with
    | [(_, node)] => document.scalarText? node
    | _ => none
  | _ => none

end Yaml.Content

namespace Chart

open Text (Bytes)

/-- The name in the description of a chart, which is one document. -/
def describedName? (data : Bytes) : Option String :=
  match Text.Utf8.decode data with
  | .error _ => none
  | .ok text =>
    match Yaml.Content.readStream text with
    | .document document false => document.fieldText? "name"
    | _ => none

/-- Whether a name leads to one directory below the one it is looked up in. -/
def isUsableName (name : String) : Bool :=
  !name.isEmpty && name != "." && name != ".." && !name.toList.any fun c => c == '/' || c == '\\'

/-- The name of a chart, without the blanks around it. -/
def name (chart : Chart) : Except RunFault String :=
  match chart.file? RunFault.chartFile with
  | none => .error (.noChartFile chart.root)
  | some description =>
    match describedName? description.raw with
    | none => .error .chartFileMalformed
    | some written =>
      let name := String.ofList (Text.trim written.toList)
      if isUsableName name then .ok name else .error (.unusableName written)

end Chart

end ChartLift
