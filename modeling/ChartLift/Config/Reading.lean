import ChartLift.Config.Basic
import ChartLift.Toml.Document

/-!
# Reading a configuration

The configuration that a TOML document says. What is left out is as in the minimal configuration,
and what is not known does not count.
-/

namespace ChartLift.Config

open Toml (Term)

/-- The values of some fields, by their names in a table or by their positions in an array. -/
def fields? (names : List String) : Term → Option (List (Option Term))
  | .table entries => some (names.map fun name => entries.lookup name)
  | .array items => some ((List.range names.length).map fun position => items[position]?)
  | .moment _ => some (names.map fun _ => none)
  | _ => none

/-- The value of a field that may be left out. -/
def field {α : Type} (usual : α) (read : Term → Option α) : Option Term → Option α
  | none => some usual
  | some term => read term

/-- A text. -/
def text? : Term → Option String
  | .text s => some s
  | _ => none

/-- A path. -/
def path? (term : Term) : Option FilePath := (text? term).map FilePath.mk

/-- A flag. -/
def flag? : Term → Option Bool
  | .flag b => some b
  | _ => none

/-- An array of values of one kind. -/
def list? {α : Type} (read : Term → Option α) : Term → Option (List α)
  | .array items => items.mapM read
  | _ => none

/-- A policy: its word, or a table with nothing under the word. -/
def policy? : Term → Option CachePolicy
  | .text word => CachePolicy.ofLabel? word
  | .table [(word, .table [])] => CachePolicy.ofLabel? word
  | .table [(word, .array [])] => CachePolicy.ofLabel? word
  | _ => none

/-- A rule. -/
def rule? (term : Term) : Option Rule :=
  match fields? ["api_version", "kind", "source_path", "key_template"] term with
  | some [some apiVersion, some kind, some sourcePath, some keyTemplate] => do
    return ⟨← text? apiVersion, ← text? kind, ← text? sourcePath, ← text? keyTemplate⟩
  | _ => none

/-- A configuration with what a section on the project says. -/
def withProject (config : Config) (term : Term) : Option Config :=
  match fields? ["root", "output_dir", "include_globs", "exclude_globs"] term with
  | some [root, output, includes, excludes] => do
    return { config with
      root := ← field config.root path? root
      outputDirectory := ← field config.outputDirectory (fun term => (path? term).map some) output
      included := ← field config.included (list? text?) includes
      excluded := ← field config.excluded (list? text?) excludes }
  | _ => none

/-- A configuration with what a section on the cache says. -/
def withCache (config : Config) (term : Term) : Option Config :=
  match fields? ["policy", "dir"] term with
  | some [policy, directory] => do
    return { config with
      policy := ← field config.policy policy? policy
      cacheDirectory := ← field config.cacheDirectory path? directory }
  | _ => none

/-- A configuration with what a section on the extraction says. -/
def withExtraction (config : Config) (term : Term) : Option Config :=
  match fields? ["lenient", "merge_existing_values"] term with
  | some [lenient, merge] => do
    return { config with
      lenient := ← field config.lenient flag? lenient
      mergeValues := ← field config.mergeValues flag? merge }
  | _ => none

/-- A configuration with rules. -/
def withRules (config : Config) (term : Term) : Option Config :=
  (list? rule? term).map fun rules => { config with rules := rules }

/-- The configuration that a document says. -/
def ofEntries? (entries : List (String × Term)) : Option Config := do
  let config ← field minimal minimal.withProject (entries.lookup "project")
  let config ← field config config.withCache (entries.lookup "cache")
  let config ← field config config.withExtraction (entries.lookup "extraction")
  field config config.withRules (entries.lookup "rules")

/-- The configuration in a file, where nothing is wrong with it. -/
def read (path : String) (data : Text.Bytes) : Except RunFault Config :=
  match Text.Utf8.decode data with
  | .error _ => .error (.configUnreadable path)
  | .ok text =>
    match (Toml.document? text).bind ofEntries? with
    | none => .error .configMalformed
    | some config => config.validate

end ChartLift.Config
