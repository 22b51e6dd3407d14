import ChartLift.Proofs.Run.Again

/-!
# Values that a chart has already

A run in place begins with the values that the chart has (`Config.exists_of_run`), and what it stores
leaves every other leaf of them (`Extractor.keeps_run`). So each leaf is found in the new values under
the same keys, unless the run has stored one there (`Config.run_keeps_values`). Where the patterns leave
the values out the run begins with none, and what the chart has is overwritten
(`Config.run_of_excluded_values`).
-/

namespace ChartLift

open Text (Bytes)
open FileTree (destination)

/-! ## Leaves -/

/-- That leaves are still there, but for those at keys that a run has stored. -/
def Store.Keeps (base : Entries) (store : Store) : Prop :=
  ∀ path value, value.IsLeaf → ValuesTree.getAt base path = some value →
    (∀ key, (store.owners.lookup key).isSome = true → keySegments key ≠ path) →
    ValuesTree.getAt store.values.root path = some value

/-- What is stored leaves the leaves at all other keys. -/
lemma Store.Keeps.puts {base : Entries} {store after : Store} {key literal document : String}
    (keeps : store.Keeps base) (puts : store.Puts key literal document after) :
    after.Keeps base := by
  intro path value leaf found apart
  obtain ⟨previous, inserted⟩ := puts.inserted
  obtain ⟨-, grows, -⟩ := ValuesTree.insert_eq_ok_iff.mp inserted
  have here : path ≠ keySegments key :=
    (apart key (by rw [puts.isSome_lookup, beq_self_eq_true, Bool.true_or])).symm
  refine (grows.getAt_of_ne (Value.isLeaf_string literal) leaf here).mpr ?_
  refine keeps path value leaf found fun other owned => apart other ?_
  rw [puts.isSome_lookup, owned, Bool.or_true]

/-- A run keeps the leaves that it begins with, but for those at keys that it stores. -/
lemma Extractor.keeps_run (extractor : Extractor) (documents : List Manifest) (values : ValuesTree) :
    (extractor.treatAll documents (.ofValues values)).1.Keeps values.root := by
  obtain ⟨after, fates, runs⟩ := exists_runs extractor documents values
  obtain ⟨rfl, -⟩ := runs_iff.mp runs
  exact runs.keeps Store.Keeps.puts fun _ _ _ found _ => found

/-- A value that seeds values is a mapping of them, unless there are none. -/
lemma ValuesTree.eq_mapping_of_ofValue? {value : Value} {values : ValuesTree}
    (seeds : ofValue? value = some values) (some : values.root ≠ []) :
    value = .mapping values.root := by
  cases value with
  | mapping entries => cases seeds; rfl
  | null => cases seeds; exact absurd rfl some
  | _ => cases seeds

namespace Config

variable {config : Config} {flags : RunFlags} {files : FileTree} {outcome : Outcome}

/-! ## The keys of a run -/

/-- The keys that a run stores values under. -/
def storedKeys (config : Config) (files : FileTree) : List String :=
  match (Chart.load (config.selection files) files).2 with
  | .error _ => []
  | .ok chart =>
    match chart.baseValues config.mergeValues with
    | .error _ => []
    | .ok values =>
      let templates := (config.cache.pristineAll chart.templates files).templates
      (config.extractor.treatAll templates (.ofValues values)).1.owners.map (·.1)

/-- A run in place that has an outcome has extracted it from the chart and its values. -/
lemma exists_of_run (inPlace : config.outputDirectory = none)
    (ran : (config.run flags files).outcome = .ok outcome) :
    ∃ notes chart values, Chart.load (config.selection files) files = (notes, .ok chart) ∧
      chart.baseValues config.mergeValues = .ok values ∧
      outcome =
        config.extractor.run (config.cache.pristineAll chart.templates files).templates values := by
  rcases run_cases inPlace flags files with ⟨-, fault, failed⟩ | ⟨notes, chart, loaded, stages⟩
  · cases failed.symm.trans ran
  rcases stages with ⟨-, fault, failed⟩ | ⟨values, based, -, ⟨fault, failed⟩ | ⟨done, -⟩⟩
  · cases failed.symm.trans ran
  · cases failed.symm.trans ran
  · exact ⟨notes, chart, values, loaded, based, Except.ok.inj (ran.symm.trans done)⟩

/-- A chart has the values that stand at its root, where they are selected. -/
lemma values?_of_load {notes : List Note} {chart : Chart} {data : Bytes} (valid : files.Valid)
    (loaded : Chart.load (config.selection files) files = (notes, .ok chart))
    (selected : (config.selection files).Selects valuesName)
    (kept : files.data? (destination config.root ++ [valuesName]) = some data) :
    chart.values? = some ⟨valuesName, data⟩ := by
  have stands : Chart.Stands files config.root ⟨valuesName, data⟩ [valuesName] :=
    ⟨List.cons_ne_nil _ _, by simpa using isName_valuesName, rfl, kept⟩
  exact Chart.file?_eq_of_mem valid loaded
    ((Chart.mem_files_iff_of_load valid loaded ⟨valuesName, data⟩).mpr ⟨selected, _, stands⟩)

/-- Each leaf of the values that a chart has is in those that a run in place leaves, with the same
value, unless the run has stored one under the same keys: where the values are kept, the patterns do
not leave them out, and what is written reads back as it is. -/
theorem run_keeps_values {data : Bytes} {base : Entries} (valid : files.Valid)
    (inPlace : config.outputDirectory = none) (merging : config.mergeValues = true)
    (ran : (config.run flags files).outcome = .ok outcome)
    (selected : (config.selection files).Selects valuesName)
    (kept : files.data? (destination config.root ++ [valuesName]) = some data)
    (read : (Text.Utf8.decode data).toOption.bind Yaml.Content.onlyValue? = some (.mapping base))
    (readsBack : (Text.Utf8.decode outcome.valuesDocument.raw).toOption.bind
      Yaml.Content.onlyValue? = some outcome.values.toValue) :
    ∃ data' base',
      (config.run flags files).files.data? (destination config.root ++ [valuesName]) = some data' ∧
      (Text.Utf8.decode data').toOption.bind Yaml.Content.onlyValue? = some (.mapping base') ∧
      ∀ path value, value.IsLeaf → ValuesTree.getAt base path = some value →
        (∀ key ∈ config.storedKeys files, keySegments key ≠ path) →
        ValuesTree.getAt base' path = some value := by
  obtain ⟨_, done⟩ := exists_completed inPlace ran
  refine ⟨_, outcome.values.root, (done.stands_values valid).data, readsBack, ?_⟩
  obtain ⟨notes, chart, values, loaded, based, rfl⟩ := exists_of_run inPlace ran
  obtain ⟨value, found, seeds⟩ : ∃ value,
      (Text.Utf8.decode data).toOption.bind Yaml.Content.onlyValue? = some value ∧
        ValuesTree.ofValue? value = some values :=
    Chart.baseValues_eq_ok (values?_of_load valid loaded selected kept) (merging ▸ based)
  -- the run begins with what the chart has
  obtain rfl := Option.some.inj (read.symm.trans found)
  obtain rfl := Option.some.inj seeds
  intro path value leaf there apart
  refine Extractor.keeps_run config.extractor _ _ path value leaf there fun key owned => ?_
  refine apart key ?_
  rw [storedKeys, loaded]
  dsimp only
  rw [based]
  obtain ⟨owner, owned⟩ := Option.isSome_iff_exists.mp owned
  obtain ⟨before, behind, split, -⟩ := List.lookup_eq_some_iff.mp owned
  exact List.mem_map.mpr ⟨(key, owner), by rw [split]; simp, rfl⟩

/-! ## Small charts -/

/-- Texts that a document reads as are told by their keys and what they are. -/
lemma read_of_texts {data : Bytes} {first : String × String} {texts : List (String × String)}
    (h : (((Text.Utf8.decode data).toOption.bind Yaml.Content.onlyValue?).bind
      ValuesTree.ofValue?).map (fun values => values.root.map fun entry =>
        (entry.1, entry.2.asString?)) =
          some ((first :: texts).map fun entry => (entry.1, some entry.2))) :
    (Text.Utf8.decode data).toOption.bind Yaml.Content.onlyValue? =
      some (.mapping ((first :: texts).map fun entry => (entry.1, .string entry.2))) := by
  obtain ⟨values, found, same⟩ := Option.map_eq_some_iff.mp h
  obtain ⟨value, is, seeds⟩ := Option.bind_eq_some_iff.mp found
  obtain rfl := eq_of_texts same
  rw [is, ValuesTree.eq_mapping_of_ofValue? seeds (List.cons_ne_nil _ _)]

/-- A chart of one template and one value. -/
def valued : FileTree :=
  ⟨bareChart ++ [(["templates", "a.yaml"], .file (fieldText "1")),
    (["values.yaml"], .file (Text.bytes "keep: me\n"))]⟩

lemma valid_valued : valued.Valid := ⟨by decide +kernel, by decide +kernel, by decide +kernel⟩

lemma read_valued : (Text.Utf8.decode (Text.bytes "keep: me\n")).toOption.bind
    Yaml.Content.onlyValue? = some (.mapping [("keep", .string "me")]) :=
  @read_of_texts _ ("keep", "me") [] (by decide +kernel)

/-- What extraction makes of the template and the value. -/
lemma extracted_valued :
    let outcome := small.extractor.run [⟨"templates/a.yaml", fieldText "1"⟩]
      ⟨[("keep", .string "me")]⟩
    outcome.documents = [⟨"templates/a.yaml", fieldText reference⟩] ∧
      outcome.valuesDocument = ⟨"values.yaml", Text.bytes "k: '1'\nkeep: me\n"⟩ ∧
      outcome.values.root.map (fun entry => (entry.1, entry.2.asString?)) =
        [("k", some "1"), ("keep", some "me")] := by
  decide +kernel

/-- A leaf of the values that a chart has is in those that a run leaves, beside the one that the run
has stored. -/
theorem run_keeps_values_valued :
    (∃ outcome, (small.run ⟨false, .off⟩ valued).outcome = .ok outcome) ∧
    ∃ data' base',
      (small.run ⟨false, .off⟩ valued).files.data? ["values.yaml"] = some data' ∧
      (Text.Utf8.decode data').toOption.bind Yaml.Content.onlyValue? = some (.mapping base') ∧
      ∀ path value, value.IsLeaf →
        ValuesTree.getAt [("keep", .string "me")] path = some value →
        (∀ key ∈ small.storedKeys valued, keySegments key ≠ path) →
        ValuesTree.getAt base' path = some value := by
  have loaded : ∃ notes, Chart.load (small.selection valued) valued =
      (notes, .ok ⟨⟨"."⟩, [description, ⟨"templates/a.yaml", fieldText "1"⟩,
        ⟨"values.yaml", Text.bytes "keep: me\n"⟩]⟩) :=
    Chart.load_of_perm (eq_ok_get small_included) (eq_ok_get (small_excluded _))
      (by decide +kernel) (by decide +kernel) (by decide +kernel) (by decide +kernel)
  obtain ⟨notes, loaded⟩ := loaded
  have based : Chart.baseValues ⟨⟨"."⟩, [description, ⟨"templates/a.yaml", fieldText "1"⟩,
      ⟨"values.yaml", Text.bytes "keep: me\n"⟩]⟩ true = .ok ⟨[("keep", .string "me")]⟩ := by
    rw [Chart.baseValues, if_pos rfl, show Chart.values? _ = some ⟨"values.yaml", _⟩ from rfl]
    dsimp only
    rw [read_valued]
    rfl
  obtain ⟨documents, document, texts⟩ := extracted_valued
  obtain ⟨-, done⟩ := run_of_stages ⟨false, .off⟩ rfl rfl rfl loaded based
    (eq_of_nodes_eq (show _ = singleCached ++ valued.nodes by decide +kernel))
    (show _ = [⟨"templates/a.yaml", fieldText "1"⟩] by decide +kernel) documents document
  have ran := done (by decide +kernel)
  generalize small.extractor.run _ _ = outcome at document texts ran
  have values := @eq_of_texts outcome.values [("k", "1"), ("keep", "me")] texts
  have readsBack : (Text.Utf8.decode outcome.valuesDocument.raw).toOption.bind
      Yaml.Content.onlyValue? = some outcome.values.toValue := by
    rw [document, values, @read_of_texts _ ("k", "1") [("keep", "me")] (by decide +kernel)]
    rfl
  have selected : (small.selection valued).Selects valuesName :=
    ⟨_, _, eq_ok_get small_included, eq_ok_get (small_excluded _), by decide +kernel,
      by decide +kernel⟩
  exact ⟨⟨outcome, ran⟩, run_keeps_values valid_valued rfl rfl ran selected (by decide +kernel)
    read_valued readsBack⟩

/-- A run that the patterns keep from reading the values. -/
def smallExcluding : Config := { small with excluded := ["values.yaml"] }

lemma smallExcluding_excluded :
    (Glob.readAll (smallExcluding.selection valued).exclusions).toOption.isSome = true := by
  rw [selection_inPlace rfl]
  decide +kernel

/-- Where the patterns leave the values out, a run overwrites them: what the chart has is gone. -/
theorem run_of_excluded_values :
    (smallExcluding.run ⟨false, .off⟩ valued).outcome.toOption.isSome = true ∧
      valued.data? ["values.yaml"] = some (Text.bytes "keep: me\n") ∧
      (smallExcluding.run ⟨false, .off⟩ valued).files.data? ["values.yaml"] =
        some (Text.bytes "k: '1'\n") ∧
      ∃ base, (Text.Utf8.decode (Text.bytes "k: '1'\n")).toOption.bind Yaml.Content.onlyValue? =
        some (.mapping base) ∧ ValuesTree.getAt base ["keep"] = none := by
  have loaded : ∃ notes, Chart.load (smallExcluding.selection valued) valued =
      (notes, .ok ⟨⟨"."⟩, [description, ⟨"templates/a.yaml", fieldText "1"⟩]⟩) :=
    Chart.load_of_perm (eq_ok_get small_included) (eq_ok_get smallExcluding_excluded)
      (by decide +kernel) (by decide +kernel) (by decide +kernel) (by decide +kernel)
  obtain ⟨notes, loaded⟩ := loaded
  obtain ⟨left, done⟩ := run_of_stages ⟨false, .off⟩ rfl rfl rfl loaded
    (show Chart.baseValues _ smallExcluding.mergeValues = .ok .empty from rfl)
    (eq_of_nodes_eq (show _ = singleCached ++ valued.nodes by decide +kernel))
    (show _ = [⟨"templates/a.yaml", fieldText "1"⟩] by decide +kernel)
    extracted_single.1 extracted_single.2.1
  refine ⟨by rw [done (by decide +kernel)]; rfl, by decide +kernel, ?_, ?_⟩
  · rw [left]
    decide +kernel
  · exact ⟨_, @read_of_texts _ ("k", "1") [] (by decide +kernel), rfl⟩

end Config

end ChartLift
