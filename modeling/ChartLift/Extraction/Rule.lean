import ChartLift.Extraction.Failure
import ChartLift.KeyTemplate.Reading

/-!
# Rules

A rule says which field of which type of object moves, and to which values key. Its path and its
template are read once, before any document is.
-/

namespace ChartLift

/-- A rule as it is written. -/
structure Rule where
  apiVersion : String
  kind : String
  sourcePath : String
  keyTemplate : String
  deriving DecidableEq, Repr, Inhabited

/-- A rule whose path and template are read. -/
structure ReadyRule where
  rule : Rule
  path : Path
  template : KeyTemplate

namespace Rule

/-- Whether a rule is about objects of a type. -/
def selects (rule : Rule) (selector : TypeSelector) : Bool :=
  rule.apiVersion == selector.apiVersion && rule.kind == selector.kind

/-- Reads the path of a rule, then its template. -/
def ready (rule : Rule) : Except Failure ReadyRule :=
  match Path.read rule.sourcePath with
  | .error fault => .error (.malformedPath rule.sourcePath fault)
  | .ok path =>
    match KeyTemplate.read rule.keyTemplate with
    | .error fault => .error (.template fault)
    | .ok template => .ok ⟨rule, path, template⟩

/-- The rule that a value writes: a mapping with the four texts by name, other entries aside, or the
sequence of exactly these texts. -/
def ofValue? : Value → Option Rule
  | .mapping entries =>
    let text (name : String) : Option String := (Entries.find? entries name).bind Value.asString?
    match text "api_version", text "kind", text "source_path", text "key_template" with
    | some apiVersion, some kind, some sourcePath, some keyTemplate =>
      some ⟨apiVersion, kind, sourcePath, keyTemplate⟩
    | _, _, _, _ => none
  | .sequence [.string apiVersion, .string kind, .string sourcePath, .string keyTemplate] =>
    some ⟨apiVersion, kind, sourcePath, keyTemplate⟩
  | _ => none

/-- A rule in words. -/
def display (rule : Rule) : String :=
  rule.apiVersion ++ "/" ++ rule.kind ++ " " ++ rule.sourcePath ++ " -> " ++ rule.keyTemplate

end Rule

end ChartLift
