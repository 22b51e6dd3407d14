import ChartLift.Cache.Policy
import ChartLift.Extraction.Rule
import ChartLift.Run.Fault
import ChartLift.Text.Blank

/-!
# Configuration

What a run is told: where the chart is and what of it to read, where to write, how to cache, and the
rules. What can be wrong with it is found before any file is touched.
-/

namespace ChartLift

/-- The configuration of a run. -/
structure Config where
  /-- The directory of the chart. -/
  root : FilePath
  /-- Where the chart is written, in a directory of its own; in place where there is none. -/
  outputDirectory : Option FilePath
  /-- The patterns of the files to read, and of those among them to leave out. -/
  included : List String
  excluded : List String
  policy : CachePolicy
  /-- The directory of the cache, seen from the root. -/
  cacheDirectory : FilePath
  lenient : Bool
  /-- Whether the values that the chart has already are kept. -/
  mergeValues : Bool
  rules : List Rule
  deriving Inhabited

namespace Config

/-- The configuration where nothing is said. -/
def minimal : Config :=
  { root := ⟨"."⟩
    outputDirectory := none
    included := ["**/*"]
    excluded := []
    policy := .byContent
    cacheDirectory := ⟨".helm-dump"⟩
    lenient := false
    mergeValues := true
    rules := [] }

/-- The directory of the cache. -/
def resolvedCache (config : Config) : FilePath := config.root.join config.cacheDirectory

/-- The directory that is written to. -/
def resolvedOutput (config : Config) : FilePath := config.outputDirectory.getD config.root

/-- The first blank field of a rule. -/
def blankField? (rule : Rule) : Option String :=
  let fields := [("api_version", rule.apiVersion), ("kind", rule.kind),
    ("source_path", rule.sourcePath), ("key_template", rule.keyTemplate)]
  (fields.find? fun (_, text) => text.toList.all Text.isBlank).map Prod.fst

/-- The first rule of which a field is blank, the first of the rules having a position. -/
def blankRule? (position : Nat) : List Rule → Option RunFault
  | [] => none
  | rule :: rest =>
    match blankField? rule with
    | some field => some (.blankRuleField position field)
    | none => blankRule? (position + 1) rest

/-- The first of some patterns that is malformed. -/
def invalidPattern? (patterns : List String) : Option String :=
  patterns.find? fun pattern => match Glob.read pattern with
    | .ok _ => false
    | .error _ => true

/-- What is wrong with a configuration, if anything is. -/
def fault? (config : Config) : Option RunFault :=
  match invalidPattern? (config.included ++ config.excluded) with
  | some pattern => some (.invalidPattern pattern)
  | none =>
    if config.included.isEmpty then some .noIncludes
    else if config.cacheDirectory.text.isEmpty then some .noCacheDirectory
    else blankRule? 0 config.rules

/-- A configuration with nothing wrong. -/
def validate (config : Config) : Except RunFault Config :=
  match config.fault? with
  | some fault => .error fault
  | none => .ok config

end Config

end ChartLift
