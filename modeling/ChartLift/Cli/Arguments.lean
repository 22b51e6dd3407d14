import ChartLift.Cache.Policy
import ChartLift.Run.Reporting

/-!
# Command-line arguments

A command, its options and its operands. Options stand behind the command that they belong to; those
that all commands share may stand before it as well. An option is given once on each side.
-/

namespace ChartLift.Cli

/-- The options. -/
inductive OptionName where
  | config
  | verbose
  | help
  | version
  | projectRoot
  | outputDirectory
  | lenient
  | strict
  | cache
  | report
  deriving DecidableEq, Repr

/-- The commands. -/
inductive CommandName where
  | moveToValues
  | version
  | help
  deriving DecidableEq, Repr

namespace OptionName

/-- The long name of an option. -/
def long : OptionName → String
  | config => "config"
  | verbose => "verbose"
  | help => "help"
  | version => "version"
  | projectRoot => "project-root"
  | outputDirectory => "output-directory"
  | lenient => "lenient"
  | strict => "strict"
  | cache => "cache"
  | report => "report"

/-- The letter of an option. -/
def letter? : OptionName → Option Char
  | verbose => some 'v'
  | help => some 'h'
  | version => some 'V'
  | projectRoot => some 'd'
  | outputDirectory => some 'o'
  | _ => none

/-- Whether an option needs a value. -/
def takesValue : OptionName → Bool
  | config | projectRoot | outputDirectory | cache | report => true
  | _ => false

end OptionName

/-- The command of a name. -/
def CommandName.ofText? (text : String) : Option CommandName :=
  if text = "move-to-values" then some .moveToValues
  else if text = "version" then some .version
  else if text = "help" then some .help
  else none

/-- What may be given at some point: before the command, or behind it. -/
structure Scope where
  options : List OptionName
  /-- How many operands there may be. -/
  operands : Nat
  takesCommand : Bool

namespace Scope

/-- Before the command. -/
def start : Scope := ⟨[.config, .verbose, .help, .version], 0, true⟩

/-- Behind a command. -/
def of : CommandName → Scope
  | .moveToValues =>
    { options := [.config, .verbose, .help, .projectRoot, .outputDirectory, .lenient, .strict,
        .cache, .report]
      operands := 4
      takesCommand := false }
  | _ => ⟨[.config, .verbose, .help], 0, false⟩

end Scope

/-- What has been given in a scope. -/
structure Given where
  config : Option String
  /-- How often more notes have been asked for, if at all. -/
  verbosity : Option Nat
  projectRoot : Option String
  outputDirectory : Option String
  lenient : Bool
  strict : Bool
  policy : Option CachePolicy
  report : Option ReportMode
  operands : List String
  deriving Inhabited

/-- Nothing at all. -/
def Given.nothing : Given := ⟨none, none, none, none, false, false, none, none, []⟩

/-- Why arguments are not a command to carry out. -/
inductive Stop where
  /-- They make no sense. -/
  | usage
  /-- They ask for help. -/
  | help
  /-- They ask for the version in one line. -/
  | version
  deriving DecidableEq, Repr

namespace Given

/-- Fills what has not been given yet. -/
def once {α : Type} (old : Option α) (new : Option α) : Except Stop (Option α) :=
  match old, new with
  | none, some value => .ok (some value)
  | _, _ => .error .usage

/-- A path that is not empty. -/
def path? (value : String) : Option String := if value.isEmpty then none else some value

/-- Takes an option with its value; an option without a value comes with an empty one. -/
def take (given : Given) (name : OptionName) (value : String) : Except Stop Given :=
  match name with
  | .config => (once given.config (path? value)).map fun config => { given with config := config }
  | .verbose => .ok { given with verbosity := some (given.verbosity.getD 0 + 1) }
  | .help => .error .help
  | .version => .error .version
  | .projectRoot =>
    (once given.projectRoot (path? value)).map fun root => { given with projectRoot := root }
  | .outputDirectory =>
    (once given.outputDirectory (path? value)).map fun output => { given with outputDirectory := output }
  | .lenient => if given.lenient then .error .usage else .ok { given with lenient := true }
  | .strict => if given.strict then .error .usage else .ok { given with strict := true }
  | .cache =>
    (once given.policy (CachePolicy.ofLabel? value)).map fun policy => { given with policy := policy }
  | .report =>
    (once given.report (ReportMode.ofLabel? value)).map fun mode => { given with report := mode }

/-- Takes an operand, where there may be one more. -/
def takeOperand (scope : Scope) (given : Given) (operand : String) : Except Stop Given :=
  if given.operands.length < scope.operands then
    .ok { given with operands := given.operands ++ [operand] }
  else .error .usage

/-- Takes operands one after the other. -/
def takeOperands (scope : Scope) : Given → List String → Except Stop Given
  | given, [] => .ok given
  | given, operand :: rest =>
    match given.takeOperand scope operand with
    | .error stop => .error stop
    | .ok given => given.takeOperands scope rest

end Given

/-- What an argument is by its form. -/
inductive ArgumentForm where
  /-- Two dashes: all arguments behind them are operands. -/
  | terminator
  | long (name : List Char) (value : Option String)
  | letters (text : List Char)
  | word

/-- The form of an argument. -/
def form (argument : String) : ArgumentForm :=
  match argument.toList with
  | ['-', '-'] => .terminator
  | '-' :: '-' :: rest =>
    let name := rest.takeWhile (· != '=')
    .long name (match rest.drop name.length with
      | [] => none
      | _ :: value => some (String.ofList value))
  | '-' :: c :: rest => .letters (c :: rest)
  | _ => .word

/-- Takes an option that has been named in a scope, together with what is attached to it. What is
still missing is the value of the option that is given back. -/
def takeNamed (given : Given) (name : OptionName) (attached : Option String) :
    Except Stop (Given × Option OptionName) :=
  match name.takesValue, attached with
  | true, none => .ok (given, some name)
  | true, some value => (given.take name value).map (·, none)
  | false, none => (given.take name "").map (·, none)
  | false, some _ => .error .usage

/-- Takes letters behind one dash. What stands behind the letter of an option with a value is its
value. -/
def takeLetters (scope : Scope) : Given → List Char → Except Stop (Given × Option OptionName)
  | given, [] => .ok (given, none)
  | given, letter :: rest =>
    match scope.options.find? (·.letter? == some letter) with
    | none => .error .usage
    | some name =>
      if name.takesValue then
        takeNamed given name (match rest with
          | [] => none
          | '=' :: value => some (String.ofList value)
          | value => some (String.ofList value))
      else
        match given.take name "" with
        | .error stop => .error stop
        | .ok given => takeLetters scope given rest

/-- Whether an argument may be the value of the option before it. -/
def isValue (argument : String) : Bool := form argument matches .word

/-- What has been given in a scope, and the command with the arguments behind it. -/
abbrev Taken := Given × Option (CommandName × List String)

/-- Takes the arguments of a scope, up to a command where there may be one. -/
def takeAll (scope : Scope) : Given → List String → Except Stop Taken
  | given, [] => .ok (given, none)
  | given, argument :: rest =>
    match (if scope.takesCommand then CommandName.ofText? argument else none) with
    | some command => .ok (given, some (command, rest))
    | none =>
      let named : Except Stop (Given × Option OptionName) :=
        match form argument with
        | .terminator => .ok (given, none)
        | .word => (given.takeOperand scope argument).map (·, none)
        | .letters text => takeLetters scope given text
        | .long name value =>
          match scope.options.find? (·.long.toList == name) with
          | none => .error .usage
          | some name => takeNamed given name value
      match named, rest with
      | .error stop, _ => .error stop
      | .ok (given, none), rest =>
        match form argument with
        | .terminator => (given.takeOperands scope rest).map (·, none)
        | _ => takeAll scope given rest
      | .ok (_, some _), [] => .error .usage
      | .ok (given, some name), value :: rest =>
        if isValue value then
          match given.take name value with
          | .error stop => .error stop
          | .ok given => takeAll scope given rest
        else .error .usage

/-- What is asked for. -/
structure Invocation where
  config : Option String
  verbosity : Nat
  command : CommandName
  given : Given

/-- Whether the words behind a request for help name a command. -/
def helpsWith (words : List String) : Bool :=
  match words with
  | [] => true
  | [word] => (CommandName.ofText? word).isSome
  | _ => false

/-- Reads arguments. What all commands share counts as it stands behind the command, where it does.
-/
def readArguments (arguments : List String) : Except Stop Invocation :=
  match takeAll .start .nothing arguments with
  | .error stop => .error stop
  | .ok (_, none) => .error .usage
  | .ok (_, some (.help, words)) => .error (if helpsWith words then .help else .usage)
  | .ok (before, some (command, rest)) =>
    match takeAll (.of command) .nothing rest with
    | .error stop => .error stop
    | .ok (given, _) =>
      .ok { config := given.config.or before.config
            verbosity := (given.verbosity.or before.verbosity).getD 0
            command := command
            given := given }

end ChartLift.Cli
