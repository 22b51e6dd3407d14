import ChartLift.Cli.Arguments
import ChartLift.Cli.BuildInfo
import ChartLift.Config.Reading
import ChartLift.Log.Filter
import ChartLift.Run.Basic

/-!
# Sessions

What the program does with its arguments: what it prints, the status it ends with, and the files as
it leaves them.
-/

namespace ChartLift.Cli

/-- What came of a call of the program. -/
structure Session where
  /-- The status that the program ends with. -/
  status : Nat
  /-- The parts of the standard output, each ending its line. -/
  output : List String
  /-- The parts of the error output, each ending its line. -/
  errors : List String
  files : FileTree

/-- What the program says to those who ask for help or give arguments that make no sense. -/
def usage : String :=
  "Usage: " ++ BuildInfo.programName ++ " [--config CONFIG] [-v...] COMMAND\n\n"
    ++ "Commands:\n"
    ++ "  move-to-values [API_VERSION KIND FIELD TEMPLATE] [-d PROJECT_ROOT] [-o OUTPUT_DIR]\n"
    ++ "                 [--lenient] [--strict] [--cache POLICY] [--report MODE]\n"
    ++ "  version\n"
    ++ "  help"

/-- The configuration that an invocation begins with. -/
def startConfig (invocation : Invocation) (files : FileTree) : Except RunFault Config :=
  match invocation.config with
  | none => .ok .minimal
  | some path =>
    match files.read ⟨path⟩ with
    | .error _ => .error (.configUnreadable path)
    | .ok data => Config.read path data

/-- The rules that operands add: all parts of one rule, or none. -/
def operandRules (operands : List String) : Except RunFault (List Rule) :=
  match operands with
  | [] => .ok []
  | [apiVersion, kind, sourcePath, keyTemplate] => .ok [⟨apiVersion, kind, sourcePath, keyTemplate⟩]
  | _ => .error .incompleteRule

/-- A configuration with what the options say. -/
def configured (config : Config) (given : Given) : Except RunFault Config :=
  match operandRules given.operands with
  | .error fault => .error fault
  | .ok rules =>
    Config.validate { config with
      rules := config.rules ++ rules
      root := given.projectRoot.elim config.root fun root => ⟨root⟩
      outputDirectory := given.outputDirectory.elim config.outputDirectory fun output => some ⟨output⟩
      policy := given.policy.getD config.policy
      lenient := config.lenient || given.lenient }

/-- What a fault is announced with. -/
def announcement (fault : RunFault) : String := "Error: " ++ fault.message

/-- A call that fails. -/
def failed (warnings : List String) (fault : RunFault) (files : FileTree) : Session :=
  ⟨1, [], warnings ++ [announcement fault], files⟩

/-- Moves values, as the options say. -/
def moveToValues (config : Config) (given : Given) (filter : Log.Filter) (warnings : List String)
    (files : FileTree) : Session :=
  match configured config given with
  | .error fault => failed warnings fault files
  | .ok config =>
    let result := config.run ⟨given.strict, given.report.getD .off⟩ files
    let shown := (result.notes.filter filter.shows).map (·.display)
    let errors := warnings ++ shown ++ result.reported
    match result.outcome with
    | .ok _ => ⟨0, result.summary, errors, result.files⟩
    | .error fault => ⟨1, result.summary, errors ++ [announcement fault], result.files⟩

/-- Carries out an invocation. -/
def invoke (invocation : Invocation) (filterSpec : Option String) (files : FileTree) : Session :=
  let start := Log.Filter.ofLevel (Log.levelFor invocation.verbosity)
  let (filter, faults) := filterSpec.elim (start, []) start.refine
  let warnings := faults.map fun fault => "warning: " ++ fault ++ ", ignoring it"
  match startConfig invocation files with
  | .error fault => failed warnings fault files
  | .ok config =>
    match invocation.command with
    | .moveToValues => moveToValues config invocation.given filter warnings files
    | _ => ⟨0, [BuildInfo.current.json], warnings, files⟩

/-- The path of the configuration that arguments name. -/
def configPath? (arguments : List String) : Option String :=
  match readArguments arguments with
  | .error _ => none
  | .ok invocation => invocation.config

/-- Calls the program with arguments and with what the environment says about its notes. -/
def call (arguments : List String) (filterSpec : Option String) (files : FileTree) : Session :=
  match readArguments arguments with
  | .error .usage => ⟨2, [], [usage], files⟩
  | .error .help => ⟨0, [usage], [], files⟩
  | .error .version => ⟨0, [BuildInfo.current.line], [], files⟩
  | .ok invocation => invoke invocation filterSpec files

end ChartLift.Cli
