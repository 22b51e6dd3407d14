import ChartLift.Proofs.Run.Skipped
import ChartLift.Proofs.Run.Stages

/-!
# Runs that stop

What may be wrong before anything of a chart is written: a run has no rules, finds no chart, cannot use
the values that the chart has, or has no name for a directory of it (`Config.Flaw`). A run with such a
flaw stops at one, and all files outside of the cache are then as they were (`Config.run_of_flaw`).
-/

namespace ChartLift

open Text (Bytes)
open FileTree (destination)

/-- Whether a fault is one that runs look for before they write anything of a chart. -/
def RunFault.isEarly : RunFault → Bool
  | noRules => true
  | noRoot _ => true
  | malformedPattern _ _ => true
  | notAChart _ => true
  | noChartFile _ => true
  | chartFileMalformed => true
  | unusableName _ => true
  | valuesMalformed _ => true
  | valuesUnusable _ => true
  | _ => false

namespace Chart

variable {selection : Selection} {files : FileTree} {notes : List Note} {chart : Chart}
  {fault : RunFault} {directory : FilePath} {documents : List Manifest}

/-- Why a directory cannot be read as a chart. -/
inductive Unloadable (selection : Selection) (files : FileTree) : RunFault → Prop where
  | noRoot :
    files.directory? selection.root = none →
    Unloadable selection files (.noRoot selection.root)
  | malformedPattern {pattern fault} :
    Glob.readAll selection.included = .error (pattern, fault) ∨
      Glob.readAll selection.exclusions = .error (pattern, fault) →
    Unloadable selection files (.malformedPattern pattern fault)
  | notAChart :
    (∀ root included excluded, files.directory? selection.root = some root →
      Glob.readAll selection.included = .ok included →
      Glob.readAll selection.exclusions = .ok excluded →
      ∀ file ∈ Selection.filesIn files root included excluded, file.name ≠ RunFault.chartFile) →
    Unloadable selection files (.notAChart selection.root)

/-- A chart that is not loaded has what the fault says. -/
lemma unloadable_of_load (h : load selection files = (notes, .error fault)) :
    Unloadable selection files fault ∧ fault.isEarly = true := by
  rw [load] at h
  split at h
  · rename_i missing
    cases h
    exact ⟨.noRoot missing, rfl⟩
  rename_i root there
  split at h
  · rename_i malformed
    cases h
    exact ⟨.malformedPattern (.inl malformed), rfl⟩
  rename_i included readIncluded
  split at h
  · rename_i malformed
    cases h
    exact ⟨.malformedPattern (.inr malformed), rfl⟩
  rename_i excluded readExcluded
  dsimp only at h
  split at h
  · cases h
  rename_i none
  cases h
  refine ⟨.notAChart fun _ _ _ there' readIncluded' readExcluded' => ?_, rfl⟩
  cases there.symm.trans there'
  cases readIncluded.symm.trans readIncluded'
  cases readExcluded.symm.trans readExcluded'
  simpa using none

lemma Unloadable.load_ne (unloadable : Unloadable selection files fault) :
    load selection files ≠ (notes, .ok chart) := by
  intro h
  rw [load] at h
  split at h
  · cases h
  rename_i root there
  split at h
  · cases h
  rename_i included readIncluded
  split at h
  · cases h
  rename_i excluded readExcluded
  dsimp only at h
  split at h
  · rename_i described
    cases unloadable with
    | noRoot missing => cases there.symm.trans missing
    | malformedPattern malformed =>
      rcases malformed with malformed | malformed
      · cases readIncluded.symm.trans malformed
      · cases readExcluded.symm.trans malformed
    | notAChart none =>
      obtain ⟨file, mem, name⟩ := List.any_eq_true.mp described
      exact none _ _ _ there readIncluded readExcluded file mem (eq_of_beq name)
  · cases h

/-- Values that cannot be used are found unusable before anything is written. -/
lemma isEarly_of_baseValues {merge : Bool} (h : chart.baseValues merge = .error fault) :
    fault.isEarly = true := by
  rw [baseValues] at h
  split at h
  · cases h
  split at h
  · cases h
    rfl
  split at h <;> cases h
  rfl

/-- A name that cannot be used is found unusable before anything is written. -/
lemma isEarly_of_name (h : chart.name = .error fault) : fault.isEarly = true := by
  rw [name] at h
  split at h
  · cases h
    rfl
  split at h
  · cases h
    rfl
  dsimp only at h
  split at h <;> cases h
  rfl

/-- What goes wrong in writing is no early fault. -/
lemma isEarly_of_save (h : (save directory documents files).count = .error fault) :
    fault.isEarly = false := by
  induction documents generalizing files with
  | nil => cases h
  | cons file rest ih =>
    rw [save_cons] at h
    split at h
    · rename_i failed
      cases h
      delta saveFile at failed
      dsimp only at failed
      split at failed
      · cases failed
        rfl
      split at failed <;> cases failed
      rfl
    · rename_i middle path _
      cases counted : (save directory rest middle).count with
      | error fault =>
        dsimp only at h
        rw [counted] at h
        cases h
        exact ih counted
      | ok n =>
        dsimp only at h
        rw [counted] at h
        cases h

end Chart

namespace Config

/-- What may be wrong with a run before anything of a chart is written. -/
inductive Flaw (config : Config) (files : FileTree) : RunFault → Prop where
  | noRules :
    config.rules = [] →
    Flaw config files .noRules
  | unloadable {fault} :
    Chart.Unloadable (config.selection files) files fault →
    Flaw config files fault
  /-- The values of the chart are to be kept and cannot be used. -/
  | values {notes chart fault} :
    Chart.load (config.selection files) files = (notes, .ok chart) →
    chart.baseValues config.mergeValues = .error fault →
    Flaw config files fault
  /-- The chart is to be written elsewhere and has no usable name. -/
  | name {notes chart fault} :
    Chart.load (config.selection files) files = (notes, .ok chart) →
    (config.pristine chart files).files.sameDirectory config.resolvedOutput config.root = false →
    chart.name = .error fault →
    Flaw config files fault

variable {config : Config} {flags : RunFlags} {files : FileTree} {chart : Chart} {outcome : Outcome}
  {values : ValuesTree} {fault : RunFault}

/-- A chart is not delivered if it is to be written elsewhere and has no usable name. -/
lemma delivery_eq_error_iff (root : chart.root = config.root) :
    config.delivery chart outcome files = .error fault ↔
      files.sameDirectory config.resolvedOutput config.root = false ∧ chart.name = .error fault := by
  rw [delivery, root]
  dsimp only
  cases files.sameDirectory config.resolvedOutput config.root with
  | true => simp
  | false =>
    cases chart.name with
    | error _ => simp
    | ok _ => simp

/-- Where a run gets to what it writes, it has no flaw. -/
lemma Extracts.not_flaw {directory : FilePath} {documents : List Manifest}
    (extracts : Extracts config files chart values)
    (delivered : config.delivery chart outcome (config.pristine chart files).files =
      .ok (directory, documents)) : ¬ config.Flaw files fault := by
  obtain ⟨notes, loaded⟩ := extracts.loaded
  intro flaw
  cases flaw with
  | noRules none => exact extracts.ruled none
  | unloadable unloadable => exact unloadable.load_ne loaded
  | values loaded' unusable =>
    cases loaded.symm.trans loaded'
    cases extracts.based.symm.trans unusable
  | name loaded' apart unnamed =>
    cases loaded.symm.trans loaded'
    have failed : config.delivery chart outcome (config.pristine chart files).files = .error fault :=
      (delivery_eq_error_iff (Chart.root_eq_of_load loaded)).mpr ⟨apart, unnamed⟩
    cases delivered.symm.trans failed

/-- A run in which anything is wrong before it writes stops for it. Where it stops for such a reason,
that is what is wrong, and no file outside of the cache has changed or been added. -/
theorem run_of_flaw (config : Config) (flags : RunFlags) (files : FileTree) :
    (∀ fault, config.Flaw files fault → ∃ first,
      (config.run flags files).outcome = .error first ∧ first.isEarly = true) ∧
    ∀ fault, (config.run flags files).outcome = .error fault → fault.isEarly = true →
      config.Flaw files fault ∧ ∀ place, ¬ destination config.resolvedCache <+: place →
        (config.run flags files).files.data? place = files.data? place := by
  have cached : ∀ chart place, ¬ destination config.resolvedCache <+: place →
      (config.pristine chart files).files.data? place = files.data? place :=
    fun _ _ outside => Cache.pristineAll_outside outside
  have comes := comesTo_run config flags files
  generalize config.run flags files = result at comes
  cases comes with
  | unruled none =>
    refine ⟨fun _ _ => ⟨_, rfl, rfl⟩, fun fault failed _ => ?_⟩
    cases failed
    exact ⟨.noRules none, fun _ _ => rfl⟩
  | unloaded _ unloaded =>
    obtain ⟨unloadable, early⟩ := Chart.unloadable_of_load unloaded
    refine ⟨fun _ _ => ⟨_, rfl, early⟩, fun fault failed _ => ?_⟩
    cases failed
    exact ⟨.unloadable unloadable, fun _ _ => rfl⟩
  | unbased _ loaded unusable =>
    refine ⟨fun _ _ => ⟨_, rfl, Chart.isEarly_of_baseValues unusable⟩, fun fault failed _ => ?_⟩
    cases failed
    exact ⟨.values loaded unusable, cached _⟩
  | undelivered extracts undelivered =>
    obtain ⟨notes, loaded⟩ := extracts.loaded
    obtain ⟨apart, unnamed⟩ := (delivery_eq_error_iff (Chart.root_eq_of_load loaded)).mp undelivered
    refine ⟨fun _ _ => ⟨_, rfl, Chart.isEarly_of_name unnamed⟩, fun fault failed _ => ?_⟩
    cases failed
    exact ⟨.name loaded apart unnamed, cached _⟩
  | unsaved extracts delivered unsaved =>
    refine ⟨fun _ flaw => absurd flaw (extracts.not_flaw delivered), fun fault failed early => ?_⟩
    cases failed
    rw [Chart.isEarly_of_save unsaved] at early
    cases early
  | saved extracts delivered _ =>
    refine ⟨fun _ flaw => absurd flaw (extracts.not_flaw delivered), fun fault failed early => ?_⟩
    dsimp only at failed
    split at failed
    · cases failed
      cases early
    · cases failed

/-- A chart whose name leads out of the directory that it is looked up in. -/
def misnamed : FileTree := ⟨[(["Chart.yaml"], .file (Text.bytes "name: ..\n"))]⟩

lemma excluded_misnamed : (Glob.readAll
    ((writingTo "out").selection misnamed).exclusions).toOption.isSome = true := by
  decide +kernel

lemma name_misnamed : Chart.name ⟨⟨"."⟩, [⟨"Chart.yaml", Text.bytes "name: ..\n"⟩]⟩ =
    .error (.unusableName "..") := by
  have described : Chart.describedName? (Text.bytes "name: ..\n") = some ".." := by decide +kernel
  have here : Chart.file? ⟨⟨"."⟩, [⟨"Chart.yaml", Text.bytes "name: ..\n"⟩]⟩ RunFault.chartFile =
      some ⟨"Chart.yaml", Text.bytes "name: ..\n"⟩ := by decide +kernel
  have unusable : Chart.isUsableName (String.ofList (Text.trim "..".toList)) = false := by
    decide +kernel
  rw [Chart.name, here]
  dsimp only
  rw [described]
  dsimp only
  rw [unusable]
  rfl

/-- A run that is to write a chart of no usable name elsewhere stops, and leaves all files as they are.
-/
theorem run_misnamed : let config := writingTo "out"
    config.Flaw misnamed (.unusableName "..") ∧
      ∃ fault, (config.run ⟨false, .off⟩ misnamed).outcome = .error fault ∧
        config.Flaw misnamed fault ∧
        ∀ place, ¬ destination config.resolvedCache <+: place →
          (config.run ⟨false, .off⟩ misnamed).files.data? place = misnamed.data? place := by
  intro config
  have loaded : ∃ notes, Chart.load (config.selection misnamed) misnamed =
      (notes, .ok ⟨⟨"."⟩, [⟨"Chart.yaml", Text.bytes "name: ..\n"⟩]⟩) :=
    Chart.load_of_perm (eq_ok_get small_included) (eq_ok_get excluded_misnamed) (by decide +kernel)
      (by decide +kernel) (by decide +kernel) (by decide +kernel)
  obtain ⟨notes, loaded⟩ := loaded
  have apart : (config.pristine ⟨⟨"."⟩, [⟨"Chart.yaml", Text.bytes "name: ..\n"⟩]⟩
      misnamed).files.sameDirectory config.resolvedOutput config.root = false := by decide +kernel
  have whole := run_of_flaw config ⟨false, .off⟩ misnamed
  obtain ⟨fault, stopped, early⟩ := whole.1 _ (.name loaded apart name_misnamed)
  exact ⟨.name loaded apart name_misnamed, fault, stopped, whole.2 fault stopped early⟩

end Config

end ChartLift
