import ChartLift.Proofs.Cache.Entries
import ChartLift.Proofs.Chart.Files
import ChartLift.Run.Basic

/-!
# The stages of a run

How far a run gets (`Config.ComesTo`): it may stop with nothing done, with templates looked up in the
cache, or amid the files that it writes, or it writes them all. A run comes to what is said here, and to
nothing else (`Config.comesTo_run`).
-/

namespace ChartLift

namespace Config

variable {config : Config} {flags : RunFlags} {files : FileTree}

/-- The templates of a chart as the cache of a run gives them, and the files after that. -/
def pristine (config : Config) (chart : Chart) (files : FileTree) : Pristine :=
  config.cache.pristineAll chart.templates files

/-- What a run extracts from a chart, beginning with some values. -/
def extracted (config : Config) (chart : Chart) (values : ValuesTree) (files : FileTree) : Outcome :=
  config.extractor.run (config.pristine chart files).templates values

/-- That a run gets to extracting: it has rules, a chart, and values to begin with. -/
structure Extracts (config : Config) (files : FileTree) (chart : Chart) (values : ValuesTree) : Prop where
  ruled : config.rules ≠ []
  loaded : ∃ notes, Chart.load (config.selection files) files = (notes, .ok chart)
  based : chart.baseValues config.mergeValues = .ok values

/-! ## How far a run gets -/

lemma isEmpty_rules_of_ne (ruled : config.rules ≠ []) : ¬ config.rules.isEmpty = true :=
  fun none => ruled (List.isEmpty_iff.mp none)

lemma run_of_unruled (flags : RunFlags) (files : FileTree) (unruled : config.rules = []) :
    config.run flags files = .stopped files [] .noRules := by
  rw [run, if_pos (List.isEmpty_iff.mpr unruled)]

lemma run_of_unloaded {notes : List Note} {fault : RunFault} (flags : RunFlags)
    (ruled : config.rules ≠ [])
    (unloaded : Chart.load (config.selection files) files = (notes, .error fault)) :
    config.run flags files = .stopped files notes fault := by
  rw [run, if_neg (isEmpty_rules_of_ne ruled), unloaded]

lemma run_of_unbased {loadNotes : List Note} {chart : Chart} {fault : RunFault} (flags : RunFlags)
    (ruled : config.rules ≠ [])
    (loaded : Chart.load (config.selection files) files = (loadNotes, .ok chart))
    (unbased : chart.baseValues config.mergeValues = .error fault) :
    ∃ notes, config.run flags files = .stopped (config.pristine chart files).files notes fault := by
  rw [run, if_neg (isEmpty_rules_of_ne ruled), loaded]
  dsimp only
  rw [unbased]
  exact ⟨_, rfl⟩

lemma run_of_extracts {chart : Chart} {values : ValuesTree} (flags : RunFlags)
    (extracts : Extracts config files chart values) :
    ∃ notes, config.run flags files = config.finish flags chart (config.extracted chart values files)
      notes (config.pristine chart files).files := by
  obtain ⟨loadNotes, loaded⟩ := extracts.loaded
  rw [run, if_neg (isEmpty_rules_of_ne extracts.ruled), loaded]
  dsimp only
  rw [extracts.based]
  exact ⟨_, rfl⟩

/-- All that a run can come to. -/
inductive ComesTo (config : Config) (flags : RunFlags) (files : FileTree) : RunResult → Prop where
  | unruled :
    config.rules = [] →
    ComesTo config flags files (.stopped files [] .noRules)
  | unloaded {notes fault} :
    config.rules ≠ [] →
    Chart.load (config.selection files) files = (notes, .error fault) →
    ComesTo config flags files (.stopped files notes fault)
  | unbased {loadNotes chart notes fault} :
    config.rules ≠ [] →
    Chart.load (config.selection files) files = (loadNotes, .ok chart) →
    chart.baseValues config.mergeValues = .error fault →
    ComesTo config flags files (.stopped (config.pristine chart files).files notes fault)
  | undelivered {chart values notes fault} :
    Extracts config files chart values →
    config.delivery chart (config.extracted chart values files) (config.pristine chart files).files =
      .error fault →
    ComesTo config flags files (.stopped (config.pristine chart files).files notes fault)
  | unsaved {chart values directory documents notes fault} :
    Extracts config files chart values →
    config.delivery chart (config.extracted chart values files) (config.pristine chart files).files =
      .ok (directory, documents) →
    (Chart.save directory documents (config.pristine chart files).files).count = .error fault →
    ComesTo config flags files (.stopped
      (Chart.save directory documents (config.pristine chart files).files).files notes fault)
  | saved {chart values directory documents notes written} :
    Extracts config files chart values →
    config.delivery chart (config.extracted chart values files) (config.pristine chart files).files =
      .ok (directory, documents) →
    (Chart.save directory documents (config.pristine chart files).files).count = .ok written →
    ComesTo config flags files
      { files := (Chart.save directory documents (config.pristine chart files).files).files
        notes := notes
        reported := (config.extracted chart values files).report.lines flags.report
        summary := (config.extracted chart values files).summary directory written
        outcome :=
          if flags.strict && !(config.extracted chart values files).report.isClean then
            .error (.notClean (config.extracted chart values files).report.diagnostics.length)
          else .ok (config.extracted chart values files) }

/-- A run comes to one of its ends. -/
lemma comesTo_run (config : Config) (flags : RunFlags) (files : FileTree) :
    ComesTo config flags files (config.run flags files) := by
  by_cases ruled : config.rules = []
  · rw [run_of_unruled flags files ruled]
    exact .unruled ruled
  obtain ⟨loadNotes, loaded⟩ : ∃ notes, Chart.load (config.selection files) files =
      (notes, (Chart.load (config.selection files) files).2) := ⟨_, rfl⟩
  generalize (Chart.load (config.selection files) files).2 = result at loaded
  cases result with
  | error fault =>
    rw [run_of_unloaded flags ruled loaded]
    exact .unloaded ruled loaded
  | ok chart =>
  cases based : chart.baseValues config.mergeValues with
  | error fault =>
    obtain ⟨notes, stopped⟩ := run_of_unbased flags ruled loaded based
    rw [stopped]
    exact .unbased ruled loaded based
  | ok values =>
    have extracts : Extracts config files chart values := ⟨ruled, ⟨_, loaded⟩, based⟩
    obtain ⟨notes, run⟩ := run_of_extracts flags extracts
    rw [run, finish]
    split
    · rename_i failed
      exact .undelivered extracts failed
    · rename_i delivered
      dsimp only
      split
      · rename_i failed
        exact .unsaved extracts delivered failed
      · rename_i counted
        exact .saved extracts delivered counted

/-- A run that gets to what it writes leaves what saving that leaves. -/
lemma run_of_delivery {chart : Chart} {values : ValuesTree} {directory : FilePath}
    {documents : List Manifest} (flags : RunFlags) (extracts : Extracts config files chart values)
    (delivered : config.delivery chart (config.extracted chart values files)
      (config.pristine chart files).files = .ok (directory, documents)) :
    let saved := Chart.save directory documents (config.pristine chart files).files
    (config.run flags files).files = saved.files ∧
      (flags.strict = false → saved.count.toOption.isSome = true →
        (config.run flags files).outcome = .ok (config.extracted chart values files)) := by
  obtain ⟨notes, run⟩ := run_of_extracts flags extracts
  rw [run, finish, delivered]
  dsimp only
  split
  · rename_i failed
    refine ⟨rfl, fun _ counted => ?_⟩
    rw [failed] at counted
    cases counted
  · refine ⟨rfl, fun lax _ => ?_⟩
    rw [lax]
    rfl

/-- A run that cannot save what it writes has failed. -/
lemma run_of_unsaved {chart : Chart} {values : ValuesTree} {directory : FilePath}
    {documents : List Manifest} {fault : RunFault} (flags : RunFlags)
    (extracts : Extracts config files chart values)
    (delivered : config.delivery chart (config.extracted chart values files)
      (config.pristine chart files).files = .ok (directory, documents))
    (unsaved : (Chart.save directory documents (config.pristine chart files).files).count =
      .error fault) :
    (config.run flags files).outcome = .error fault := by
  obtain ⟨notes, run⟩ := run_of_extracts flags extracts
  rw [run, finish, delivered]
  dsimp only
  rw [unsaved]
  rfl

end Config

end ChartLift
