import ChartLift.Value.Json

/-!
# Build information

Which program this is, for people and as indented JSON.
-/

namespace ChartLift

/-- What is known about a build. -/
structure BuildInfo where
  version : String
  commit : String
  date : String
  /-- The version of the compiler. -/
  compiler : String
  deriving DecidableEq, Repr, Inhabited

namespace BuildInfo

/-- The name of the program. -/
def programName : String := "helm-dump"

/-- This build. -/
def current : BuildInfo := ⟨"0.2.0", "", "", ""⟩

/-- The version in one line. -/
def line (info : BuildInfo) : String := programName ++ " " ++ info.version

/-- The information as JSON, one field on a line. -/
def json (info : BuildInfo) : String :=
  let field (name value : String) : String :=
    "  " ++ Value.jsonString name ++ ": " ++ Value.jsonString value
  let fields := [field "version" info.version, field "commit" info.commit, field "date" info.date,
    field "rustVersion" info.compiler]
  "\x7b\n" ++ ",\n".intercalate fields ++ "\n\x7d"

end BuildInfo

end ChartLift
