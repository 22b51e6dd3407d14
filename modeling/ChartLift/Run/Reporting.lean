import ChartLift.Extraction.Report

/-!
# Report lines

A report as lines, one for each document and then one for each failure, the tolerated ones first.
The lines are meant for people or for programs.
-/

namespace ChartLift

/-- Whom the lines of a report are for. -/
inductive ReportMode where
  /-- Nobody. -/
  | off
  | human
  | json
  deriving DecidableEq, Repr, Inhabited

namespace ReportMode

/-- The mode in one word. -/
def label : ReportMode → String
  | off => "off"
  | human => "human"
  | json => "json"

/-- The mode that a word stands for. -/
def ofLabel? (word : String) : Option ReportMode :=
  [off, human, json].find? (·.label == word)

end ReportMode

/-- What a line of a report is about. -/
inductive ReportEvent where
  | document (name : String) (state : DocumentState)
  | warning (diagnostic : Diagnostic)
  | failure (diagnostic : Diagnostic)

namespace ReportEvent

/-- A number of things. -/
def quantity (n : Nat) (one many : String) : String :=
  toString n ++ " " ++ (if n = 1 then one else many)

/-- What a person reads about an event. -/
def humanLine : ReportEvent → String
  | document name (.skipped reason) => "skip     " ++ name ++ "  (" ++ reason.words ++ ")"
  | document name .unmatched => "keep     " ++ name
  | document name (.rewritten applied failed) =>
    "rewrite  " ++ name ++ "  " ++ quantity applied "patch" "patches"
      ++ (if failed = 0 then "" else ", " ++ quantity failed "failed rule" "failed rules")
  | warning diagnostic => "warning  " ++ diagnostic.display
  | failure diagnostic => "error    " ++ diagnostic.display

/-- An event as a value. -/
def toValue : ReportEvent → Value
  | document name state =>
    .mapping (Entries.ofList [("event", .string "document"), ("name", .string name),
      ("outcome", .mapping state.toEntries)])
  | warning diagnostic =>
    .mapping (Entries.ofList [("event", .string "warning"), ("diagnostic", diagnostic.toValue)])
  | failure diagnostic =>
    .mapping (Entries.ofList [("event", .string "diagnostic"), ("diagnostic", diagnostic.toValue)])

end ReportEvent

namespace Report

/-- The events of a report, in their order. -/
def events (report : Report) : List ReportEvent :=
  report.documents.map (fun document => .document document.1 document.2)
    ++ report.warnings.map .warning ++ report.diagnostics.map .failure

/-- The lines of a report. -/
def lines (report : Report) : ReportMode → List String
  | .off => []
  | .human => report.events.map (·.humanLine)
  | .json => report.events.map (·.toValue.json)

end Report

end ChartLift
