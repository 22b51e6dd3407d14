import ChartLift.Proofs.Extraction.Rerun
import ChartLift.Proofs.Extraction.Turn
import ChartLift.Proofs.Run.InPlace

/-!
# Running in place twice

A run in place over what the same run has left changes no file outside of the cache, as long as no
value was in conflict (`Config.run_twice`). Where one was, the next run replaces the value that the
first one kept (`Config.run_twice_of_conflict`).
-/

namespace ChartLift

open Text (Bytes)
open FileTree (destination)

/-- That values read back as themselves, where their document can be read as values at all. -/
def Outcome.ReadsBack (outcome : Outcome) : Prop :=
  ∀ value values,
    (Text.Utf8.decode outcome.valuesDocument.raw).toOption.bind Yaml.Content.onlyValue? =
      some value →
    ValuesTree.ofValue? value = some values → values = outcome.values

/-- A chart with a file of values has what the file reads as for its values. -/
lemma Chart.baseValues_eq_ok {chart : Chart} {file : Manifest} {values : ValuesTree}
    (kept : chart.values? = some file) (h : chart.baseValues true = .ok values) :
    ∃ value, (Text.Utf8.decode file.raw).toOption.bind Yaml.Content.onlyValue? = some value ∧
      ValuesTree.ofValue? value = some values := by
  rw [baseValues, if_pos rfl, kept] at h
  dsimp only at h
  split at h
  · cases h
  rename_i value read
  split at h
  · cases h
  · rename_i found
    cases h
    exact ⟨value, read, found⟩

namespace Config

variable {config : Config} {flags flags' : RunFlags} {files : FileTree} {outcome : Outcome}
  {place : Place}

/-- Running in place twice is running once: what has run leaves, outside of the cache, the files that
it finds when it runs again, unless a value was in conflict, a rewritten document still decodes, the
patterns leave the values out or they read back as others, or the cache holds for a document what it
is not. -/
theorem run_twice (valid : files.Valid) (inPlace : config.outputDirectory = none)
    (policy : config.policy = .byContent) (merging : config.mergeValues = true)
    (ran : (config.run flags files).outcome = .ok outcome)
    (settled : ∀ diagnostic ∈ outcome.report.diagnostics, ¬ diagnostic.failure.IsConflict)
    (spoils : Extractor.Spoils outcome)
    (selected : (config.selection files).Selects valuesName)
    (readsBack : outcome.ReadsBack)
    (faithful : config.cache.Faithful (config.run flags files).files outcome.documents)
    (outside : ¬ destination config.resolvedCache <+: place) :
    let first := config.run flags files
    (config.run flags' first.files).files.data? place = first.files.data? place := by
  intro first
  obtain ⟨chart, done⟩ := exists_completed inPlace ran
  have valid' : first.files.Valid := done.valid valid
  have sameSelection : config.selection first.files = config.selection files := by
    rw [selection_inPlace inPlace, selection_inPlace inPlace]
  have cached : ∀ templates,
      (config.cache.pristineAll templates first.files).files.data? place =
        first.files.data? place :=
    fun _ => Cache.pristineAll_outside outside
  rcases run_cases inPlace flags' first.files with ⟨same, -⟩ | ⟨notes, chart', loaded, stages⟩
  · rw [same]
  rcases stages with ⟨same, -⟩ | ⟨values, based, same, -⟩
  · rw [same]
    exact cached _
  rw [same]
  -- the next run reads documents of the first one, and its values
  rw [sameSelection] at loaded
  have again := done.templates_again valid policy loaded
  obtain rfl : values = outcome.values := by
    rw [merging] at based
    obtain ⟨value, read, found⟩ :=
      Chart.baseValues_eq_ok (done.values?_again valid loaded selected) based
    exact readsBack value values read found
  have pristine : (config.cache.pristineAll chart'.templates first.files).templates =
      chart'.templates := by
    refine faithful.pristineAll fun template mem covered => ?_
    rcases again template mem with here | ⟨reason, skipped⟩
    · exact here
    · rw [Extractor.skipReason?] at skipped
      rw [Cache.covers, Bool.and_eq_true, Bool.not_eq_true'] at covered
      simp [covered] at skipped
  -- so it finds nothing to change
  obtain ⟨values, extracted⟩ := done.extracted
  rw [extracted] at settled spoils again
  obtain ⟨documents, kept⟩ := Extractor.rerun settled spoils again
  rw [← extracted] at documents kept
  have unchanged : written chart' (config.extractor.run chart'.templates outcome.values) =
      [outcome.valuesDocument] := by
    have sameValues : (config.extractor.run chart'.templates outcome.values).valuesDocument =
        outcome.valuesDocument := by
      rw [Extractor.run_valuesDocument, kept, extracted, Extractor.run_valuesDocument]
    rw [written_of_unchanged valid' loaded documents, sameValues]
  rw [pristine, unchanged]
  rcases Chart.save_data? place with same | ⟨document, mem, leads, stored⟩
  · rw [same]
    exact cached _
  · obtain rfl := List.mem_singleton.mp mem
    have there := done.stands_values valid
    rw [there.destination] at leads
    rw [stored, ← leads]
    exact there.data.symm

/-! ## Small charts -/

lemma eq_ok_get {ε α : Type} {result : Except ε α} (h : result.toOption.isSome = true) :
    result = .ok (result.toOption.get h) := by
  cases result with
  | error fault => cases h
  | ok a => rfl

/-- A text is told by what it is. -/
lemma eq_string_of_asString? {value : Value} {text : String} (h : value.asString? = some text) :
    value = .string text := by
  cases value with
  | string s => cases h; rfl
  | _ => cases h

/-- A tree of texts is told by its keys and its texts. -/
lemma eq_of_texts {values : ValuesTree} {texts : List (String × String)}
    (h : values.root.map (fun entry => (entry.1, entry.2.asString?)) =
      texts.map fun entry => (entry.1, some entry.2)) :
    values = ⟨texts.map fun entry => (entry.1, .string entry.2)⟩ := by
  obtain ⟨root⟩ := values
  refine congrArg ValuesTree.mk ?_
  dsimp only at h
  induction root generalizing texts with
  | nil =>
    obtain rfl := List.map_eq_nil_iff.mp h.symm
    rfl
  | cons entry root ih =>
    obtain ⟨text, texts, rfl, first, rest⟩ := List.map_eq_cons_iff.mp h.symm
    obtain ⟨key, value⟩ := entry
    obtain ⟨rfl, is⟩ := Prod.mk.inj first
    rw [List.map_cons, ih rest.symm, show value = _ from eq_string_of_asString? is.symm]

/-- A tree of one text is told by its key and its text. -/
lemma eq_of_single {values : ValuesTree} {key text : String}
    (h : values.root.map (fun entry => (entry.1, entry.2.asString?)) = [(key, some text)]) :
    values = ⟨[(key, .string text)]⟩ :=
  @eq_of_texts values [(key, text)] h

/-- A configuration of one rule in the working directory. -/
def small : Config := { minimal with rules := [.ofField "a" "k"] }

/-- A document with one field besides its type. -/
def fieldText (text : String) : Bytes :=
  Text.bytes ("apiVersion: v1\nkind: A\na: " ++ text ++ "\n")

/-- The reference that takes the place of the field. -/
def reference : String := "\x7b\x7b .Values.k \x7d\x7d"

/-- The description of a chart and the directory of its templates. -/
def bareChart : List (Place × FileNode) :=
  [(["Chart.yaml"], .file (Text.bytes "name: c\n")), (["templates"], .directory)]

/-- The description of a chart as it is loaded. -/
def description : Manifest := ⟨"Chart.yaml", Text.bytes "name: c\n"⟩

lemma small_included : (Glob.readAll small.included).toOption.isSome = true := by
  decide +kernel

lemma small_excluded (files : FileTree) :
    (Glob.readAll (small.selection files).exclusions).toOption.isSome = true := by
  rw [selection_inPlace rfl]
  decide +kernel

lemma eq_of_nodes_eq {tree tree' : FileTree} (h : tree.nodes = tree'.nodes) : tree = tree' :=
  congrArg FileTree.mk h

/-- A chart of one template. -/
def single : FileTree := ⟨bareChart ++ [(["templates", "a.yaml"], .file (fieldText "1"))]⟩

/-- The cache with a copy of the template. -/
def singleCached : List (Place × FileNode) :=
  [([".helm-dump", "templates_a_yaml-5849634d82f39ef7"], .file (fieldText "1")),
    ([".helm-dump"], .directory)]

/-- The chart of one template with its value moved. -/
def singleMoved : FileTree :=
  ⟨[(["values.yaml"], .file (Text.bytes "k: '1'\n")),
    (["templates", "a.yaml"], .file (fieldText reference))] ++ singleCached ++ bareChart⟩

/-- What extraction makes of the one template. -/
lemma extracted_single :
    let outcome := small.extractor.run [⟨"templates/a.yaml", fieldText "1"⟩] .empty
    outcome.documents = [⟨"templates/a.yaml", fieldText reference⟩] ∧
      outcome.valuesDocument = ⟨"values.yaml", Text.bytes "k: '1'\n"⟩ ∧
      outcome.report.diagnostics.isEmpty = true ∧
      outcome.values.root.map (fun entry => (entry.1, entry.2.asString?)) = [("k", some "1")] := by
  decide +kernel

/-- What the chart of one template is loaded as. -/
lemma load_single : ∃ notes, Chart.load (small.selection single) single =
    (notes, .ok ⟨⟨"."⟩, [description, ⟨"templates/a.yaml", fieldText "1"⟩]⟩) :=
  Chart.load_of_perm (eq_ok_get small_included) (eq_ok_get (small_excluded _))
    (by decide +kernel) (by decide +kernel) (by decide +kernel) (by decide +kernel)

/-- What a run over the chart of one template comes to. -/
lemma run_single : (small.run ⟨false, .off⟩ single).files = singleMoved ∧
    (small.run ⟨false, .off⟩ single).outcome =
      .ok (small.extractor.run [⟨"templates/a.yaml", fieldText "1"⟩] .empty) := by
  obtain ⟨notes, loaded⟩ := load_single
  obtain ⟨left, done⟩ := run_of_stages ⟨false, .off⟩ rfl rfl rfl loaded
    (show Chart.baseValues _ _ = .ok .empty from rfl)
    (eq_of_nodes_eq (show _ = singleCached ++ single.nodes by decide +kernel))
    (show _ = [⟨"templates/a.yaml", fieldText "1"⟩] by decide +kernel)
    extracted_single.1 extracted_single.2.1
  exact ⟨left.trans (eq_of_nodes_eq (by decide +kernel)), done (by decide +kernel)⟩

/-- Running over a chart of one template again leaves the values and the template as they are. -/
theorem run_twice_single :
    let first := small.run ⟨false, .off⟩ single
    first.files.data? ["values.yaml"] = some (Text.bytes "k: '1'\n") ∧
      first.files.data? ["templates", "a.yaml"] = some (fieldText reference) ∧
      ∀ place ∈ [["values.yaml"], ["templates", "a.yaml"]],
        (small.run ⟨true, .human⟩ first.files).files.data? place = first.files.data? place := by
  obtain ⟨files, ran⟩ := run_single
  obtain ⟨documents, document, settled, values⟩ := extracted_single
  generalize small.extractor.run _ _ = outcome at ran documents document settled values
  have spoils : Extractor.Spoils outcome := by
    intro i name document state here _ _
    rw [documents] at here
    obtain rfl := List.mem_singleton.mp (List.mem_of_getElem? here)
    have none : (Manifest.decode ⟨"templates/a.yaml", fieldText reference⟩).toOption.isNone = true := by
      decide +kernel
    cases decode : Manifest.decode ⟨"templates/a.yaml", fieldText reference⟩ with
    | error fault => exact ⟨fault, rfl⟩
    | ok decoded => rw [decode] at none; cases none
  have readsBack : outcome.ReadsBack := by
    intro value tree read seeds
    have back : (((Text.Utf8.decode (Text.bytes "k: '1'\n")).toOption.bind
        Yaml.Content.onlyValue?).bind ValuesTree.ofValue?).map (fun values =>
          values.root.map fun entry => (entry.1, entry.2.asString?)) = some [("k", some "1")] := by
      decide +kernel
    rw [document] at read
    rw [read, Option.bind_some, seeds] at back
    rw [eq_of_single values, eq_of_single (Option.some.inj back)]
  have faithful : small.cache.Faithful (small.run ⟨false, .off⟩ single).files outcome.documents := by
    rw [files, documents]
    exact ⟨by decide +kernel, by decide +kernel⟩
  have selected : (small.selection single).Selects valuesName :=
    ⟨_, _, eq_ok_get small_included, eq_ok_get (small_excluded _), by decide +kernel,
      by decide +kernel⟩
  have valid : single.Valid := ⟨by decide +kernel, by decide +kernel, by decide +kernel⟩
  have outside : ∀ place ∈ [["values.yaml"], ["templates", "a.yaml"]],
      ¬ destination small.resolvedCache <+: place := by decide +kernel
  refine ⟨by rw [files]; decide +kernel, by rw [files]; decide +kernel, fun place mem => ?_⟩
  exact run_twice valid rfl rfl rfl ran (by simp [List.isEmpty_iff.mp settled]) spoils selected
    readsBack faithful (outside place mem)

/-- A chart of two templates with different texts for one key. -/
def clashing : FileTree :=
  ⟨bareChart ++ [(["templates", "a.yaml"], .file (fieldText "1")),
    (["templates", "b.yaml"], .file (fieldText "5"))]⟩

/-- The cache with a copy of each of the two templates. -/
def clashingCached : List (Place × FileNode) :=
  ([".helm-dump", "templates_b_yaml-5f81b94f2de19f5e"], .file (fieldText "5")) :: singleCached

/-- The chart of two templates with the text of the first one moved. -/
def clashingMoved : FileTree :=
  ⟨[(["values.yaml"], .file (Text.bytes "k: '1'\n")),
    (["templates", "a.yaml"], .file (fieldText reference))] ++ clashingCached ++ bareChart ++
    [(["templates", "b.yaml"], .file (fieldText "5"))]⟩

/-- What a run over the chart of two templates comes to. -/
lemma run_clashing : (small.run ⟨false, .off⟩ clashing).files = clashingMoved ∧
    (small.run ⟨false, .off⟩ clashing).outcome.toOption.isSome = true := by
  have loaded : ∃ notes, Chart.load (small.selection clashing) clashing =
      (notes, .ok ⟨⟨"."⟩, [description, ⟨"templates/a.yaml", fieldText "1"⟩,
        ⟨"templates/b.yaml", fieldText "5"⟩]⟩) :=
    Chart.load_of_perm (eq_ok_get small_included) (eq_ok_get (small_excluded _))
      (by decide +kernel) (by decide +kernel) (by decide +kernel) (by decide +kernel)
  obtain ⟨notes, loaded⟩ := loaded
  have first : (small.cache.pristine ⟨"templates/a.yaml", fieldText "1"⟩ clashing).1 =
      ⟨singleCached ++ clashing.nodes⟩ := eq_of_nodes_eq (by decide +kernel)
  have stored : (small.cache.pristineAll [⟨"templates/a.yaml", fieldText "1"⟩,
      ⟨"templates/b.yaml", fieldText "5"⟩] clashing).files =
        ⟨clashingCached ++ clashing.nodes⟩ := by
    rw [(Cache.pristineAll_cons _ _ _ _).1, first]
    exact eq_of_nodes_eq (by decide +kernel)
  have given : (small.cache.pristineAll [⟨"templates/a.yaml", fieldText "1"⟩,
      ⟨"templates/b.yaml", fieldText "5"⟩] clashing).templates =
        [⟨"templates/a.yaml", fieldText "1"⟩, ⟨"templates/b.yaml", fieldText "5"⟩] := by
    rw [(Cache.pristineAll_cons _ _ _ _).2, first]
    exact congrArg₂ List.cons (by decide +kernel) (by decide +kernel)
  obtain ⟨left, done⟩ := run_of_stages ⟨false, .off⟩ rfl rfl rfl loaded
    (show Chart.baseValues _ _ = .ok .empty from rfl) stored given
    (show _ = [⟨"templates/a.yaml", fieldText reference⟩, ⟨"templates/b.yaml", fieldText "5"⟩] by
      decide +kernel)
    (show _ = ⟨"values.yaml", Text.bytes "k: '1'\n"⟩ by decide +kernel)
  refine ⟨left.trans (eq_of_nodes_eq (by decide +kernel)), ?_⟩
  rw [done (by decide +kernel)]
  rfl

/-- What a run over the chart that the first one leaves comes to. -/
lemma run_clashingMoved : (small.run ⟨false, .off⟩ clashingMoved).files.data? ["values.yaml"] =
      some (Text.bytes "k: '5'\n") ∧
    (small.run ⟨false, .off⟩ clashingMoved).files.data? ["templates", "b.yaml"] =
      some (fieldText reference) := by
  have loaded : ∃ notes, Chart.load (small.selection clashingMoved) clashingMoved =
      (notes, .ok ⟨⟨"."⟩, [description, ⟨"templates/a.yaml", fieldText reference⟩,
        ⟨"templates/b.yaml", fieldText "5"⟩, ⟨"values.yaml", Text.bytes "k: '1'\n"⟩]⟩) :=
    Chart.load_of_perm (eq_ok_get small_included) (eq_ok_get (small_excluded _))
      (by decide +kernel) (by decide +kernel) (by decide +kernel) (by decide +kernel)
  obtain ⟨notes, loaded⟩ := loaded
  have read : (Chart.baseValues ⟨⟨"."⟩, [description, ⟨"templates/a.yaml", fieldText reference⟩,
      ⟨"templates/b.yaml", fieldText "5"⟩, ⟨"values.yaml", Text.bytes "k: '1'\n"⟩]⟩
      small.mergeValues).toOption.map (fun values =>
        values.root.map fun entry => (entry.1, entry.2.asString?)) = some [("k", some "1")] := by
    decide +kernel
  obtain ⟨values, based, single⟩ := Option.map_eq_some_iff.mp read
  obtain rfl := eq_of_single single
  have based := eq_ok_of_toOption based
  have first : (small.cache.pristine ⟨"templates/a.yaml", fieldText reference⟩ clashingMoved).1 =
      ⟨([".helm-dump", "templates_a_yaml-b1936044bb4502ac"], .file (fieldText reference)) ::
        clashingMoved.nodes⟩ := eq_of_nodes_eq (by decide +kernel)
  have stored : (small.cache.pristineAll [⟨"templates/a.yaml", fieldText reference⟩,
      ⟨"templates/b.yaml", fieldText "5"⟩] clashingMoved).files =
        ⟨([".helm-dump", "templates_a_yaml-b1936044bb4502ac"], .file (fieldText reference)) ::
          clashingMoved.nodes⟩ := by
    rw [(Cache.pristineAll_cons _ _ _ _).1, first]
    exact eq_of_nodes_eq (by decide +kernel)
  have given : (small.cache.pristineAll [⟨"templates/a.yaml", fieldText reference⟩,
      ⟨"templates/b.yaml", fieldText "5"⟩] clashingMoved).templates =
        [⟨"templates/a.yaml", fieldText reference⟩, ⟨"templates/b.yaml", fieldText "5"⟩] := by
    rw [(Cache.pristineAll_cons _ _ _ _).2, first]
    exact congrArg₂ List.cons (by decide +kernel) (by decide +kernel)
  obtain ⟨left, -⟩ := run_of_stages ⟨false, .off⟩ rfl rfl rfl loaded based stored given
    (show _ = [⟨"templates/a.yaml", fieldText reference⟩, ⟨"templates/b.yaml", fieldText reference⟩]
      by decide +kernel)
    (show _ = ⟨"values.yaml", Text.bytes "k: '5'\n"⟩ by decide +kernel)
  rw [left]
  exact ⟨by decide +kernel, by decide +kernel⟩

/-- A value that a first run does not replace is replaced by the next one, although the template that
it comes from refers to it by then, and the template of the other value is rewritten. -/
theorem run_twice_of_conflict :
    let first := small.run ⟨false, .off⟩ clashing
    let second := small.run ⟨false, .off⟩ first.files
    first.outcome.toOption.isSome = true ∧
      first.files.data? ["templates", "a.yaml"] = some (fieldText reference) ∧
      first.files.data? ["values.yaml"] = some (Text.bytes "k: '1'\n") ∧
      second.files.data? ["values.yaml"] = some (Text.bytes "k: '5'\n") ∧
      first.files.data? ["templates", "b.yaml"] = some (fieldText "5") ∧
      second.files.data? ["templates", "b.yaml"] = some (fieldText reference) := by
  obtain ⟨files, ran⟩ := run_clashing
  obtain ⟨values, rewritten⟩ := run_clashingMoved
  dsimp only
  rw [files, values, rewritten]
  exact ⟨ran, by decide +kernel, by decide +kernel, rfl, by decide +kernel, rfl⟩

end Config

end ChartLift
