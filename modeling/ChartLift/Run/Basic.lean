import ChartLift.Chart.Name
import ChartLift.Chart.Saving
import ChartLift.Config.Basic
import ChartLift.Run.Reporting
import ChartLift.Run.Summary
import ChartLift.Run.Templates

/-!
# Whole runs

A run reads a chart, extracts values from its pristine templates and writes the chart: in place what
has changed, elsewhere all of it. Nothing but the cache is written before all that may be wrong with
the chart has been looked at.
-/

namespace ChartLift

/-- What a run is told besides its configuration. -/
structure RunFlags where
  /-- Whether failures on record make the run fail. -/
  strict : Bool
  report : ReportMode
  deriving DecidableEq, Repr, Inhabited

/-- What came of a whole run. -/
structure RunResult where
  /-- All files as they are now. -/
  files : FileTree
  notes : List Note
  reported : List String
  summary : List String
  outcome : Except RunFault Outcome

namespace RunResult

/-- A run that has stopped. -/
def stopped (files : FileTree) (notes : List Note) (fault : RunFault) : RunResult :=
  ⟨files, notes, [], [], .error fault⟩

end RunResult

/-- Whether two paths lead to one directory; where one of them leads nowhere yet, whether they are
the same path. -/
def FileTree.sameDirectory (files : FileTree) (a b : FilePath) : Bool :=
  match files.existing? a, files.existing? b with
  | some a, some b => a == b
  | _, _ => a.sameSteps b

/-- The values that a run begins with: those of the chart, where they are kept. -/
def Chart.baseValues (chart : Chart) (merge : Bool) : Except RunFault ValuesTree :=
  match (if merge then chart.values? else none) with
  | none => .ok .empty
  | some file =>
    match (Text.Utf8.decode file.raw).toOption.bind Yaml.Content.onlyValue? with
    | none => .error (.valuesMalformed file.name)
    | some value =>
      match ValuesTree.ofValue? value with
      | none => .error (.valuesUnusable file.name)
      | some values => .ok values

namespace Config

/-- What of a chart is read: nothing that the run itself writes to other directories. -/
def selection (config : Config) (files : FileTree) : Selection :=
  let output := config.resolvedOutput
  { root := config.root
    included := config.included
    excluded := config.excluded
    skipped := config.resolvedCache ::
      (if files.sameDirectory output config.root then [] else [output]) }

/-- The cache of a run. -/
def cache (config : Config) : Cache := ⟨config.resolvedCache, config.policy⟩

/-- The rules of a run, made ready. -/
def extractor (config : Config) : Extractor := .ofRules config.rules ⟨config.lenient, valuesName⟩

/-- Where the chart is written and which files are: in place those that have changed, elsewhere all.
-/
def delivery (config : Config) (chart : Chart) (outcome : Outcome) (files : FileTree) :
    Except RunFault (FilePath × List Manifest) :=
  let output := config.resolvedOutput
  if files.sameDirectory output chart.root then
    let changed := outcome.documents.filter fun document =>
      (chart.file? document.name).map (·.raw) != some document.raw
    .ok (chart.root, changed ++ [outcome.valuesDocument])
  else
    match chart.name with
    | .error fault => .error fault
    | .ok name =>
      .ok (output.join ⟨name⟩, chart.passthrough ++ outcome.documents ++ [outcome.valuesDocument])

/-- Writes the outcome of a run and reports it. -/
def finish (config : Config) (flags : RunFlags) (chart : Chart) (outcome : Outcome) (notes : List Note)
    (files : FileTree) : RunResult :=
  match config.delivery chart outcome files with
  | .error fault => .stopped files notes fault
  | .ok (destination, documents) =>
    let saved := Chart.save destination documents files
    match saved.count with
    | .error fault => .stopped saved.files (notes ++ saved.notes) fault
    | .ok written =>
      { files := saved.files
        notes := notes ++ saved.notes
        reported := outcome.report.lines flags.report
        summary := outcome.summary destination written
        outcome :=
          if flags.strict && !outcome.report.isClean then
            .error (.notClean outcome.report.diagnostics.length)
          else .ok outcome }

/-- Runs over a chart. -/
def run (config : Config) (flags : RunFlags) (files : FileTree) : RunResult :=
  if config.rules.isEmpty then .stopped files [] .noRules
  else
    match Chart.load (config.selection files) files with
    | (notes, .error fault) => .stopped files notes fault
    | (loadNotes, .ok chart) =>
      let pristine := config.cache.pristineAll chart.templates files
      let notes := loadNotes ++ pristine.notes
      match chart.baseValues config.mergeValues with
      | .error fault => .stopped pristine.files notes fault
      | .ok values =>
        let extractor := config.extractor
        let outcome := extractor.run pristine.templates values
        config.finish flags chart outcome (notes ++ extractor.rejectionNotes ++ outcome.notes)
          pristine.files

end Config

end ChartLift
