import ChartLift.Proofs.Glob.Directory
import ChartLift.Proofs.Run.Again

/-!
# Directories that runs leave out

A run does not read what is in its cache or in the directory that it writes to, where that directory is
spelled as the root is, with plain names behind (`loads_nothing_below`). For a cache that is seen from the
root this is so however the root is spelled (`spelledBelow_resolvedCache`). An output directory that is
spelled in another way is read like any other (`mem_files_iff_of_unspelled`); one that is seen from the
working directory is spelled so where the root is `.` (`loads_output`).
-/

namespace ChartLift

open FileTree (destination)

/-- That a directory is spelled as another path is and, behind that, by names to go down which stand for
themselves in patterns. -/
structure FilePath.SpelledBelow (directory root : FilePath) (names : Place) : Prop where
  steps : directory.steps = root.steps ++ names.map .down
  below : names ≠ []
  plain : ∀ name ∈ names, Glob.Plain name

section

variable {root directory : FilePath} {names : Place}

lemma FilePath.SpelledBelow.named (spelled : directory.SpelledBelow root names) :
    ∀ name ∈ names, Place.IsName name :=
  fun _ mem => isName_of_down_mem_steps
    (spelled.steps ▸ List.mem_append_right _ (List.mem_map_of_mem mem))

lemma FilePath.SpelledBelow.destination (spelled : directory.SpelledBelow root names) :
    FileTree.destination directory = FileTree.destination root ++ names :=
  FileTree.destination_of_steps_eq spelled.steps

end

namespace Selection

variable {root directory : FilePath} {names more : Place}

/-! ## Patterns -/

lemma nameOf_map_down (names : Place) : FilePath.nameOf (names.map .down) = names.display := by
  rw [FilePath.nameOf, List.filterMap_map, Place.display]
  exact congrArg _ List.filterMap_some

lemma plain_display (plain : ∀ name ∈ names, Glob.Plain name) : Glob.Plain names.display := by
  induction names with
  | nil => exact fun c mem => absurd mem List.not_mem_nil
  | cons first rest ih =>
    obtain ⟨here, others⟩ := List.forall_mem_cons.mp plain
    cases rest with
    | nil => exact here
    | cons second rest =>
      intro c mem
      rw [Place.display, String.intercalate_cons_cons, String.toList_append, String.toList_append] at mem
      rcases List.mem_append.mp mem with mem | mem
      · rcases List.mem_append.mp mem with mem | mem
        · exact here c mem
        · obtain rfl := List.mem_singleton.mp mem
          decide
      · exact ih others c mem

lemma display_ne_empty (named : ∀ name ∈ names, Place.IsName name) (some : names ≠ []) :
    names.display ≠ "" := by
  intro empty
  have parts := FilePath.parts_display named
  rw [empty] at parts
  exact some parts.symm

/-- A directory that is spelled below the root is left out by a pattern of its name. -/
lemma patternOf?_of_spelledBelow (spelled : directory.SpelledBelow root names) :
    patternOf? root directory = some (names.display ++ "/**") := by
  rw [patternOf?, FilePath.stepsBehind?, spelled.steps, if_pos (by simp)]
  simp [nameOf_map_down, display_ne_empty spelled.named spelled.below]

lemma mem_of_readAll {sources : List String} {globs : List Glob} {source : String} {glob : Glob}
    (h : Glob.readAll sources = .ok globs) (mem : source ∈ sources) (read : Glob.read source = .ok glob) :
    glob ∈ globs := by
  induction sources generalizing globs with
  | nil => cases mem
  | cons first rest ih =>
    rw [Glob.readAll] at h
    split at h
    · cases h
    · cases h
    · rename_i readFirst readRest
      cases h
      rcases List.mem_cons.mp mem with rfl | mem
      · cases readFirst.symm.trans read
        exact List.mem_cons_self
      · exact List.mem_cons_of_mem _ (ih readRest mem)

/-- Of the files below a skipped directory none is selected. -/
lemma not_selects_of_skipped {selection : Selection} (skipped : directory ∈ selection.skipped)
    (spelled : directory.SpelledBelow selection.root names) (further : more ≠ []) :
    ¬ selection.Selects (Place.display (names ++ more)) := by
  rintro ⟨-, excluded, -, readExcluded, -, kept⟩
  have pattern : names.display ++ "/**" ∈ selection.exclusions := by
    refine List.mem_cons_of_mem _ (List.mem_append_left _ (List.mem_filterMap.mpr ?_))
    exact ⟨directory, skipped, patternOf?_of_spelledBelow spelled⟩
  have among := mem_of_readAll readExcluded pattern (Glob.read_below (plain_display spelled.plain))
  refine Bool.eq_false_iff.mp kept (List.any_eq_true.mpr ⟨_, among, ?_⟩)
  rw [Glob.isMatch_below_iff (display_ne_empty spelled.named spelled.below),
    show (names ++ more).display = names.display ++ "/" ++ more.display from
      String.intercalate_append_of_ne_nil spelled.below further, Glob.bytes_append _ more.display]
  exact List.prefix_append _ _

end Selection

/-! ## Runs -/

namespace Config

variable {config : Config} {files : FileTree} {notes : List Note} {chart : Chart}
  {directory : FilePath} {names more : Place}

/-- A directory below the root is not the root, so that what is written there is left out. -/
lemma mem_skipped (files : FileTree)
    (writes : directory = config.resolvedCache ∨ directory = config.resolvedOutput)
    (spelled : directory.SpelledBelow config.root names) :
    directory ∈ (config.selection files).skipped := by
  rcases writes with rfl | rfl
  · exact List.mem_cons_self
  have apart : files.sameDirectory config.resolvedOutput config.root = false :=
    FileTree.sameDirectory_eq_false files (by simpa [spelled.destination] using spelled.below)
  rw [selection]
  simp [apart]

/-- A cache that is seen from the root is spelled below it, however the root is spelled. -/
lemma spelledBelow_resolvedCache (begins : config.root.text ≠ "")
    (inside : config.cacheDirectory.isAbsolute = false)
    (downward : config.cacheDirectory.steps.filter (· != .here) = names.map .down) (below : names ≠ [])
    (plain : ∀ name ∈ names, Glob.Plain name) :
    config.resolvedCache.SpelledBelow config.root names :=
  ⟨by rw [resolvedCache, FilePath.steps_join inside begins, downward], below, plain⟩

/-- A run reads an output directory that is not spelled below the root as though it did not write there.
-/
theorem mem_files_iff_of_unspelled (valid : files.Valid)
    (loaded : Chart.load (config.selection files) files = (notes, .ok chart))
    (unspelled : config.resolvedOutput.stepsBehind? config.root = none) (file : Manifest) :
    file ∈ chart.files ↔
      Selection.Selects ⟨config.root, config.included, config.excluded, [config.resolvedCache]⟩ file.name ∧
        ∃ rest, Chart.Stands files config.root file rest := by
  rw [Chart.mem_files_iff_of_load valid loaded]
  have same : (config.selection files).exclusions =
      Selection.exclusions ⟨config.root, config.included, config.excluded, [config.resolvedCache]⟩ := by
    have pattern : Selection.patternOf? config.root config.resolvedOutput = none := by
      rw [Selection.patternOf?, unspelled]
    rw [selection]
    split_ifs
    · rfl
    · simp [Selection.exclusions, List.filterMap_cons, pattern]
  rw [Selection.Selects, Selection.Selects, same]
  rfl

/-- No file of a loaded chart is inside of the cache or of the directory that the run writes to, where
that directory is spelled as the root is with plain names behind. -/
theorem loads_nothing_below (valid : files.Valid)
    (loaded : Chart.load (config.selection files) files = (notes, .ok chart))
    (writes : directory = config.resolvedCache ∨ directory = config.resolvedOutput)
    (spelled : directory.SpelledBelow config.root names) {file : Manifest} (mem : file ∈ chart.files)
    (further : more ≠ []) :
    destination (chart.root.join ⟨file.name⟩) ≠ destination directory ++ more := by
  obtain ⟨selects, rest, stands⟩ := (Chart.mem_files_iff_of_load valid loaded file).mp mem
  intro there
  rw [Chart.root_eq_of_load loaded, stands.destination, spelled.destination, List.append_assoc] at there
  obtain rfl := List.append_cancel_left there
  rw [stands.name] at selects
  exact Selection.not_selects_of_skipped (mem_skipped files writes spelled) spelled further selects

/-- A chart with what an earlier run has written to a directory inside of it. -/
def delivered : FileTree :=
  ⟨[(["Chart.yaml"], .file (Text.bytes "name: c\n")), (["out"], .directory), (["out", "c"], .directory),
    (["out", "c", "Chart.yaml"], .file (Text.bytes "name: c\n"))]⟩

/-- A configuration of one rule with an output directory. -/
def writingTo (output : String) : Config := { small with outputDirectory := some ⟨output⟩ }

lemma excluded_dot : (Glob.readAll
    ((writingTo "./out").selection delivered).exclusions).toOption.isSome = true := by
  decide +kernel

lemma excluded_dotless : (Glob.readAll
    ((writingTo "out").selection delivered).exclusions).toOption.isSome = true := by
  decide +kernel

/-- An output directory that is spelled behind the dot of the root is left out. -/
theorem loads_nothing_below_dot : ∃ notes,
    delivered.Valid ∧
      Chart.load ((writingTo "./out").selection delivered) delivered =
        (notes, .ok ⟨⟨"."⟩, [description]⟩) ∧
      FilePath.SpelledBelow ⟨"./out"⟩ ⟨"."⟩ ["out"] ∧
      destination (FilePath.join ⟨"."⟩ ⟨"Chart.yaml"⟩) ≠ destination ⟨"./out"⟩ ++ ["c", "Chart.yaml"] := by
  have valid : delivered.Valid := ⟨by decide +kernel, by decide +kernel, by decide +kernel⟩
  have loaded : ∃ notes, Chart.load ((writingTo "./out").selection delivered) delivered =
      (notes, .ok ⟨⟨"."⟩, [description]⟩) :=
    Chart.load_of_perm (eq_ok_get small_included) (eq_ok_get excluded_dot) (by decide +kernel)
      (by decide +kernel) (by decide +kernel) (by decide +kernel)
  obtain ⟨notes, loaded⟩ := loaded
  have spelled : FilePath.SpelledBelow ⟨"./out"⟩ ⟨"."⟩ ["out"] :=
    ⟨by decide +kernel, by decide, List.forall_mem_singleton.mpr (by decide +kernel)⟩
  have apart := @loads_nothing_below _ _ _ _ _ _ ["c", "Chart.yaml"] valid loaded (.inr rfl) spelled
    description (List.mem_singleton_self _) (List.cons_ne_nil _ _)
  exact ⟨notes, valid, loaded, spelled, apart⟩

/-- An output directory inside of the root `.` that is spelled without the dot is read with the chart. -/
theorem loads_output : ∃ notes chart,
    delivered.Valid ∧
      Chart.load ((writingTo "out").selection delivered) delivered = (notes, .ok chart) ∧
      destination (writingTo "out").resolvedOutput = destination (writingTo "out").root ++ ["out"] ∧
      ∃ file ∈ chart.files, destination (chart.root.join ⟨file.name⟩) =
        destination (writingTo "out").resolvedOutput ++ ["c", "Chart.yaml"] := by
  have loaded : ∃ notes, Chart.load ((writingTo "out").selection delivered) delivered =
      (notes, .ok ⟨⟨"."⟩, [description, ⟨"out/c/Chart.yaml", Text.bytes "name: c\n"⟩]⟩) :=
    Chart.load_of_perm (eq_ok_get small_included) (eq_ok_get excluded_dotless) (by decide +kernel)
      (by decide +kernel) (by decide +kernel) (by decide +kernel)
  obtain ⟨notes, loaded⟩ := loaded
  exact ⟨notes, _, ⟨by decide +kernel, by decide +kernel, by decide +kernel⟩, loaded,
    by decide +kernel, ⟨"out/c/Chart.yaml", Text.bytes "name: c\n"⟩, by simp, by decide +kernel⟩

end Config

end ChartLift
