import ChartLift.Extraction.Failure
import ChartLift.Value.Json

/-!
# Reports

What became of each document of a run, and what went wrong on the way. A failure that the run
tolerates is a warning, every other one a diagnostic.
-/

namespace ChartLift

/-- Where in a run a failure arises. -/
inductive Stage where
  | compile
  | decode
  | parse
  | read
  | render
  | store
  | find
  | plan
  deriving DecidableEq, Repr, Inhabited

/-- The stage in one word. -/
def Stage.label : Stage → String
  | compile => "compile"
  | decode => "decode"
  | parse => "parse"
  | read => "read"
  | render => "render"
  | store => "store"
  | find => "match"
  | plan => "plan"

/-- A failure on record. -/
structure Diagnostic where
  stage : Stage
  /-- The document, unless the failure concerns the whole run. -/
  document : Option String
  /-- The rule in words, unless the failure concerns the whole document. -/
  rule : Option String
  failure : Failure
  /-- A values key that was stored although the document does not refer to it. -/
  orphan : Option String

namespace Diagnostic

/-- A diagnostic as a line. -/
def display (diagnostic : Diagnostic) : String :=
  "[" ++ diagnostic.stage.label ++ "]"
    ++ diagnostic.document.elim "" (fun document => " " ++ document)
    ++ diagnostic.rule.elim "" (fun rule => " (" ++ rule ++ ")")
    ++ ": " ++ diagnostic.failure.message
    ++ diagnostic.orphan.elim "" (fun key => " [values key " ++ key ++ " is not referenced]")

/-- A diagnostic as a value. -/
def toValue (diagnostic : Diagnostic) : Value :=
  let text (s : Option String) : Value := (s.map Value.string).getD .null
  .mapping (Entries.ofList [("stage", .string diagnostic.stage.label),
    ("document", text diagnostic.document), ("rule", text diagnostic.rule),
    ("error", .string diagnostic.failure.message), ("orphaned_value", text diagnostic.orphan)])

end Diagnostic

/-- Why a document is left alone before any rule is looked at. -/
inductive SkipReason where
  | internal
  | notYaml
  | undecodable
  deriving DecidableEq, Repr, Inhabited

/-- The reason in one word. -/
def SkipReason.label : SkipReason → String
  | internal => "internal"
  | notYaml => "not_yaml"
  | undecodable => "undecodable"

/-- The reason in words. -/
def SkipReason.words : SkipReason → String
  | internal => "internal"
  | notYaml => "not yaml"
  | undecodable => "undecodable"

/-- The name of the reason. -/
def SkipReason.name : SkipReason → String
  | internal => "Internal"
  | notYaml => "NotYaml"
  | undecodable => "Undecodable"

/-- What became of a document. -/
inductive DocumentState where
  | skipped (reason : SkipReason)
  /-- No rule selects its type. -/
  | unmatched
  /-- Rules were applied to it: the number of patches, and of rules that failed. -/
  | rewritten (applied failed : Nat)
  deriving DecidableEq, Repr, Inhabited

namespace DocumentState

/-- A state as entries of a mapping. -/
def toEntries : DocumentState → Entries
  | skipped reason =>
    Entries.ofList [("state", .string "skipped"), ("reason", .string reason.label)]
  | unmatched => Entries.ofList [("state", .string "unmatched")]
  | rewritten applied failed =>
    Entries.ofList [("state", .string "rewritten"), ("applied", .integer applied),
      ("failed", .integer failed)]

/-- The number of patches. -/
def patches : DocumentState → Nat
  | rewritten applied _ => applied
  | _ => 0

/-- Whether a document was left alone. -/
def isSkipped : DocumentState → Bool
  | skipped _ => true
  | _ => false

end DocumentState

/-- What a run has to report: the state of each document in their order, and the failures in theirs.
-/
structure Report where
  documents : List (String × DocumentState)
  diagnostics : List Diagnostic
  warnings : List Diagnostic

namespace Report

/-- The state of the first document of a name. -/
def stateOf? (report : Report) (name : String) : Option DocumentState :=
  report.documents.lookup name

/-- The diagnostics about a document. -/
def diagnosticsFor (report : Report) (name : String) : List Diagnostic :=
  report.diagnostics.filter (·.document == some name)

/-- The number of documents left alone. -/
def skippedCount (report : Report) : Nat :=
  report.documents.countP (·.2.isSkipped)

/-- The number of documents left alone for a reason. -/
def skippedFor (report : Report) (reason : SkipReason) : Nat :=
  report.documents.countP (·.2 == .skipped reason)

/-- The number of documents with patches. -/
def rewrittenCount (report : Report) : Nat :=
  report.documents.countP fun document => decide (0 < document.2.patches)

/-- The number of patches. -/
def patchCount (report : Report) : Nat :=
  report.documents.foldl (fun count document => count + document.2.patches) 0

/-- The values keys that were stored without a reference to them. -/
def orphans (report : Report) : List String :=
  (report.diagnostics ++ report.warnings).filterMap (·.orphan)

/-- Whether nothing went wrong but what is tolerated. -/
def isClean (report : Report) : Bool := report.diagnostics.isEmpty

end Report

end ChartLift
