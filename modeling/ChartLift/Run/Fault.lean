import ChartLift.Files.Tree
import ChartLift.Glob.Pattern
import ChartLift.Manifest.Basic
import ChartLift.Text.Quoted

/-!
# Faults of a run

What keeps a whole run from going on, by cause, with one wording for each cause.
-/

namespace ChartLift

/-- What keeps a run from going on. -/
inductive RunFault where
  | configUnreadable (path : String)
  | configMalformed
  /-- A configured pattern that is malformed. -/
  | invalidPattern (pattern : String)
  | noIncludes
  | noCacheDirectory
  /-- A rule of which a field is blank. -/
  | blankRuleField (position : Nat) (field : String)
  /-- A rule on the command line of which some parts are missing. -/
  | incompleteRule
  | noRules
  | noRoot (root : FilePath)
  /-- A pattern that is malformed, wherever it comes from. -/
  | malformedPattern (pattern : String) (fault : GlobFault)
  | notAChart (root : FilePath)
  | noChartFile (root : FilePath)
  | chartFileMalformed
  | unusableName (name : String)
  | valuesMalformed (name : String)
  | valuesUnusable (name : String)
  | directoryNotMade (path : FilePath)
  | fileNotWritten (path : FilePath)
  /-- Bytes that are no YAML and so not worth a copy. -/
  | notYaml (name : String)
  | cacheNotMade (path : FilePath) (fault : FileFault)
  | copyNotMade (path : FilePath) (fault : FileFault)
  | copyUnreadable (path : FilePath) (fault : FileFault)
  /-- A run that had to be clean and was not. -/
  | notClean (diagnostics : Nat)

namespace RunFault

/-- The name of the file that describes a chart. -/
def chartFile : String := "Chart.yaml"

/-- The fault in words. -/
def message : RunFault → String
  | configUnreadable path => "Failed to read config file: " ++ path
  | configMalformed => "Failed to parse config file"
  | invalidPattern pattern => "invalid glob pattern '" ++ pattern ++ "'"
  | noIncludes => "project.include_globs must not be empty"
  | noCacheDirectory => "cache.dir must not be empty"
  | blankRuleField position field =>
    "rules[" ++ toString position ++ "]." ++ field ++ " must not be empty"
  | incompleteRule => "move-to-values takes all four of API_VERSION KIND FIELD TEMPLATE, or none"
  | noRules =>
    "No extraction rules: pass API_VERSION KIND FIELD TEMPLATE or add [[rules]] to the config"
  | noRoot root => "Chart root does not exist or is not a directory: " ++ root.text
  | malformedPattern pattern fault => "error parsing glob '" ++ pattern ++ "': " ++ fault.message
  | notAChart root => "Not a chart directory: " ++ root.text ++ " has no " ++ chartFile
  | noChartFile root => root.text ++ " has no " ++ chartFile
  | chartFileMalformed => "Failed to parse " ++ chartFile
  | unusableName name => chartFile ++ " has an unusable chart name: " ++ Text.quoted name
  | valuesMalformed name => "Failed to parse " ++ name
  | valuesUnusable name => "Failed to load " ++ name
  | directoryNotMade path => "Failed to create directory: " ++ path.text
  | fileNotWritten path => "Failed to write chart file: " ++ path.text
  | notYaml name => name ++ " is not valid YAML, not caching it"
  | cacheNotMade path _ => "Failed to create cache directory: " ++ path.text
  | copyNotMade path _ => "Failed to create cache entry: " ++ path.text
  | copyUnreadable path _ => "Failed to read cache entry: " ++ path.text
  | notClean diagnostics => toString diagnostics ++ " diagnostics recorded (--strict)"

/-- The cause behind a fault of the cache, in words. -/
def cause? : RunFault → Option String
  | notYaml _ => some malformedYaml
  | cacheNotMade _ fault => some fault.message
  | copyNotMade _ fault => some fault.message
  | copyUnreadable _ fault => some fault.message
  | _ => none

/-- The fault in words, with its cause. -/
def explanation (fault : RunFault) : String :=
  fault.message ++ (fault.cause?.elim "" fun cause => ": " ++ cause)

end RunFault

end ChartLift
