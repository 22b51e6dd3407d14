import ChartLift.Proofs.Extraction.Isolation
import ChartLift.Proofs.Run.Again

/-!
# Templates that no rule is about

A run in place writes a template only where a rule is about it or where the cache gives something else
for it (`Config.exists_of_mem_written`). What the cache gives is told by the `History` of the files: a
copy in the cache's directory is one of a template that a run has read (`History.exists_copy`). So a
template that no rule is about stays as it is, whatever has been edited between the runs
(`Config.run_untouched`), unless copies go by name and that of the template is another one, as after an
edit (`Config.run_of_edited`).
-/

namespace ChartLift

open Text (Bytes)
open FileTree (destination)

/-! ## Documents without rules -/

namespace Extractor

/-- A document that no rule is about stays as it is. -/
lemma Treats.document_eq {extractor : Extractor} {document : Manifest} {store after : Store}
    {fate : Fate} (treats : Treats extractor document store after fate)
    (idle : ∀ decoded, Decodes document decoded → extractor.selecting decoded = []) :
    fate.document = document := by
  cases treats with
  | skipped => rfl
  | undecodable => rfl
  | unmatched => rfl
  | unindexed => rfl
  | rewritten decodes busy => exact absurd (idle _ decodes) busy

/-- Each document of a run is what became of one that it has been given. -/
lemma exists_treats_of_mem_run {extractor : Extractor} {documents : List Manifest}
    {values : ValuesTree} {document : Manifest}
    (mem : document ∈ (extractor.run documents values).documents) :
    ∃ given ∈ documents, ∃ store after fate, Treats extractor given store after fate ∧
      fate.document = document := by
  obtain ⟨after, fates, runs⟩ := exists_runs extractor documents values
  rw [(run_of_runs runs).1] at mem
  obtain ⟨fate, member, rfl⟩ := List.mem_map.mp mem
  obtain ⟨i, there⟩ := List.getElem?_of_mem member
  obtain ⟨short, -⟩ := List.getElem?_eq_some_iff.mp there
  have here := List.getElem?_eq_getElem (runs.length ▸ short)
  obtain ⟨middle, fate', there', treats⟩ := runs.treats here
  cases there.symm.trans there'
  exact ⟨_, List.getElem_mem _, _, middle, fate, treats, rfl⟩

/-- Where no rule is about a type, none that is ready is. -/
lemma selecting_ofRules_eq_nil {rules : List Rule} {options : RunOptions}
    {decoded : Manifest.Decoded}
    (unselected : ∀ rule ∈ rules, rule.selects decoded.selector = false) :
    (ofRules rules options).selecting decoded = [] := by
  refine List.filter_eq_nil_iff.mpr fun ready mem => ?_
  obtain ⟨rule, member, is⟩ := List.mem_filterMap.mp mem
  rw [rule_of_ready (ready_eq_ok is), unselected rule member]
  exact Bool.false_ne_true

end Extractor

/-! ## Copies -/

namespace Cache

/-- Names that copies of templates can have. -/
def NamesCopy (entry : String) : Prop :=
  ∃ template policy, covers template = true ∧ EntryName template.name template.raw policy entry

lemma NamesCopy.dotless {entry : String} (names : NamesCopy entry) : '.' ∉ entry.toList := by
  obtain ⟨template, policy, -, named⟩ := names
  exact named.dotless

/-- That a file is a copy of one of some templates. -/
def IsCopy (read : List Manifest) (entry : String) (data : Bytes) : Prop :=
  ∃ template ∈ read, covers template = true ∧ template.raw = data ∧
    ∃ policy, EntryName template.name template.raw policy entry

lemma IsCopy.mono {read read' : List Manifest} {entry : String} {data : Bytes}
    (copy : IsCopy read entry data) (more : read ⊆ read') : IsCopy read' entry data := by
  obtain ⟨template, mem, is⟩ := copy
  exact ⟨template, more mem, is⟩

end Cache

namespace Config

variable {config : Config} {flags : RunFlags} {files : FileTree} {notes : List Note}
  {chart : Chart} {values : ValuesTree} {outcome : Outcome} {document template : Manifest}
  {rest : Place}

/-! ## What is written -/

/-- What is written besides the values is another text of a template, made of what the cache gives
for it. -/
lemma exists_of_mem_written (valid : files.Valid)
    (loaded : Chart.load (config.selection files) files = (notes, .ok chart))
    (mem : document ∈ written chart
      (config.extractor.run (config.cache.pristineAll chart.templates files).templates values)) :
    document.name = valuesName ∨ ∃ template ∈ chart.templates, document.name = template.name ∧
      document ≠ template ∧ ∃ given store after fate,
        config.cache.Gives (config.cache.pristineAll chart.templates files).files template given ∧
        Extractor.Treats config.extractor given store after fate ∧ fate.document = document := by
  rcases List.mem_append.mp mem with changed | values
  · right
    obtain ⟨member, differs⟩ := List.mem_filter.mp changed
    obtain ⟨given, there, store, after, fate, treats, rfl⟩ :=
      Extractor.exists_treats_of_mem_run member
    obtain ⟨template, isTemplate, gives⟩ := Cache.exists_gives_of_mem_pristineAll there
    refine ⟨template, isTemplate, treats.name.trans gives.name, ?_, given, store, after, fate, gives,
      treats, rfl⟩
    intro same
    rw [same, Chart.file?_eq_of_mem valid loaded (List.mem_filter.mp isTemplate).1] at differs
    simp at differs
  · left
    rw [List.mem_singleton.mp values, Extractor.run_valuesDocument]
    rfl

/-- What is written besides the values has the name of a YAML file. -/
lemma isYaml_of_mem_written (valid : files.Valid)
    (loaded : Chart.load (config.selection files) files = (notes, .ok chart))
    (mem : document ∈ written chart
      (config.extractor.run (config.cache.pristineAll chart.templates files).templates values)) :
    document.name = valuesName ∨ document.isYaml = true := by
  refine (exists_of_mem_written valid loaded mem).imp id fun written => ?_
  obtain ⟨template, -, name, differs, given, store, after, fate, gives, treats, rfl⟩ := written
  -- any other document is neither looked up nor considered
  by_contra other
  have notYaml : ∀ {file : Manifest}, file.name = fate.document.name → file.isYaml = false := by
    intro file same
    rw [Manifest.isYaml, same]
    exact eq_false_of_ne_true other
  obtain ⟨reason, skipped⟩ := Extractor.exists_skipReason (notYaml treats.name.symm)
  have kept := treats.document_eq fun decoded decodes => by
    rw [decodes.considered] at skipped
    cases skipped
  have raw := gives.raw_eq fun covered => by
    rw [Cache.covers, notYaml name.symm, Bool.and_false] at covered
    cases covered
  exact differs (Manifest.eq_of_raw_eq name (kept ▸ raw))

/-- Nothing is written to a file of the name of a copy. -/
lemma save_copy {cache : Place} {entry : String} (valid : files.Valid)
    (loaded : Chart.load (config.selection files) files = (notes, .ok chart))
    (dotless : '.' ∉ entry.toList) :
    let pristine := config.cache.pristineAll chart.templates files
    (Chart.save config.root (written chart (config.extractor.run pristine.templates values))
      pristine.files).files.data? (cache ++ [entry]) = pristine.files.data? (cache ++ [entry]) := by
  rcases Chart.save_data? (cache ++ [entry]) with same | ⟨document, mem, leads, -⟩
  · exact same
  exfalso
  rcases exists_of_mem_written valid loaded mem with values | ⟨template, isTemplate, name, -⟩
  · rw [values, FileTree.destination_join _ isName_valuesName] at leads
    rw [← List.singleton_inj.mp (List.append_inj' leads rfl).2] at dotless
    exact absurd dotless (by decide)
  · obtain ⟨-, rest, stands⟩ := (Chart.mem_files_iff_of_load valid loaded template).mp
      (List.mem_filter.mp isTemplate).1
    have there : destination config.root ++ rest = cache ++ [entry] := by
      rw [← leads, name]
      exact stands.destination.symm
    obtain ⟨above, last, rfl⟩ := List.eq_nil_or_concat' rest |>.resolve_left stands.below
    rw [← List.append_assoc] at there
    rw [List.singleton_inj.mp (List.append_inj' there rfl).2] at stands
    rcases isYaml_of_mem_written valid loaded mem with values | yaml
    · have isTemplate := (List.mem_filter.mp isTemplate).2
      rw [← name, values, Chart.isTemplate_valuesName] at isTemplate
      cases isTemplate
    · rw [Manifest.isYaml_eq_false (name.trans stands.name) dotless] at yaml
      cases yaml

/-! ## Histories -/

/-- The templates that a run reads. -/
def templatesRead (config : Config) (files : FileTree) : List Manifest :=
  match (Chart.load (config.selection files) files).2 with
  | .ok chart => chart.templates
  | .error _ => []

/-- Files as runs in place leave them one after the other, with all templates that the runs have
read. Before the first run there is no copy in the cache's directory, and between the runs anything is
edited but the copies, which may only be removed. -/
inductive History (cache : Place) : List Manifest → FileTree → Prop where
  | start {files : FileTree} :
    files.Valid →
    (∀ entry, Cache.NamesCopy entry → files.data? (cache ++ [entry]) = none) →
    History cache [] files
  | edited {read : List Manifest} {files files' : FileTree} :
    History cache read files →
    files'.Valid →
    (∀ entry data, Cache.NamesCopy entry → files'.data? (cache ++ [entry]) = some data →
      files.data? (cache ++ [entry]) = some data) →
    History cache read files'
  | ran {read : List Manifest} {files : FileTree} (config : Config) (flags : RunFlags) :
    History cache read files →
    config.outputDirectory = none →
    destination config.resolvedCache = cache →
    History cache (read ++ config.templatesRead files) (config.run flags files).files

section History

variable {cache : Place} {read : List Manifest} {entry : String} {data : Bytes}

/-- Runs keep files as they can be. -/
lemma run_valid (valid : files.Valid) (flags : RunFlags) : (config.run flags files).files.Valid := by
  have comes := comesTo_run config flags files
  generalize config.run flags files = result at comes
  cases comes with
  | unruled => exact valid
  | unloaded => exact valid
  | unbased => exact Cache.pristineAll_valid valid
  | undelivered => exact Cache.pristineAll_valid valid
  | unsaved => exact Chart.save_valid (Cache.pristineAll_valid valid)
  | saved => exact Chart.save_valid (Cache.pristineAll_valid valid)

lemma History.valid (history : History cache read files) : files.Valid := by
  induction history with
  | start valid => exact valid
  | edited _ valid => exact valid
  | ran config flags _ _ _ ih => exact run_valid ih flags

/-- Looking templates up leaves copies of them, and those that there were. -/
lemma isCopy_of_pristineAll {templates : List Manifest}
    (cached : destination config.resolvedCache = cache)
    (before : ∀ data, files.data? (cache ++ [entry]) = some data → Cache.IsCopy read entry data)
    (held : (config.cache.pristineAll templates files).files.data? (cache ++ [entry]) = some data) :
    Cache.IsCopy (read ++ templates) entry data := by
  rcases Cache.pristineAll_data? (cache ++ [entry]) with same | ⟨template, mem, adds⟩
  · exact (before data (same ▸ held)).mono (List.subset_append_left _ _)
  · obtain ⟨path, is, leads⟩ := adds.entry
    obtain ⟨entry', named, there⟩ :=
      Cache.exists_entryName is fun _ => Cache.name_ne_of_covers adds.covered
    have there : cache ++ [entry'] = cache ++ [entry] := by
      rw [← leads, there, ← cached]
      rfl
    obtain rfl := List.singleton_inj.mp (List.append_cancel_left there)
    exact ⟨template, List.mem_append_right _ mem, adds.covered,
      Option.some.inj (adds.added.symm.trans held), _, named⟩

/-- A run leaves copies of the templates that it reads, and those that there were. -/
lemma isCopy_of_run (valid : files.Valid) (inPlace : config.outputDirectory = none)
    (flags : RunFlags) (cached : destination config.resolvedCache = cache)
    (dotless : '.' ∉ entry.toList)
    (before : ∀ data, files.data? (cache ++ [entry]) = some data → Cache.IsCopy read entry data)
    (held : (config.run flags files).files.data? (cache ++ [entry]) = some data) :
    Cache.IsCopy (read ++ config.templatesRead files) entry data := by
  rcases run_cases inPlace flags files with ⟨same, -⟩ | ⟨notes, chart, loaded, stages⟩
  · exact (before data (same ▸ held)).mono (List.subset_append_left _ _)
  rw [templatesRead, loaded]
  rcases stages with ⟨same, -⟩ | ⟨values, -, same, -⟩
  · exact isCopy_of_pristineAll cached before (same ▸ held)
  · rw [same, save_copy valid loaded dotless] at held
    exact isCopy_of_pristineAll cached before held

/-- What has the name of a copy is a copy of a template that a run has read. -/
lemma History.exists_copy (history : History cache read files) (names : Cache.NamesCopy entry)
    (held : files.data? (cache ++ [entry]) = some data) : Cache.IsCopy read entry data := by
  induction history generalizing data with
  | start _ none =>
    rw [none entry names] at held
    cases held
  | edited _ _ removed ih => exact ih (removed entry data names held)
  | ran config flags history inPlace cached ih =>
    exact isCopy_of_run history.valid inPlace flags cached names.dotless (fun _ => ih) held

end History

/-- A template that no rule is about is not written: not by any of a number of runs in place, whatever
has been edited between them, unless copies go by name and the one that goes by the template's is
another text, or copies go by content and a different text with the same digits has been read. -/
theorem run_untouched {cache : Place} {read : List Manifest} {decoded : Manifest.Decoded}
    (history : History cache read files) (inPlace : config.outputDirectory = none)
    (cached : destination config.resolvedCache = cache)
    (ran : (config.run flags files).outcome = .ok outcome)
    (stands : Chart.Stands files config.root template rest)
    (isTemplate : Chart.isTemplate template.name = true)
    (decodes : template.decode = .ok decoded)
    (unselected : ∀ rule ∈ config.rules, rule.selects decoded.selector = false)
    (sameName : config.policy = .byName →
      ∀ data, (config.run flags files).files.data? (cache ++ [Cache.transliterate template.name]) =
        some data → data = template.raw)
    (sameDigits : config.policy = .byContent → ∀ copy ∈ read ++ config.templatesRead files,
      Cache.contentHash copy.raw = Cache.contentHash template.raw → copy.raw = template.raw) :
    (config.run flags files).files.data? (destination config.root ++ rest) = some template.raw := by
  have valid := history.valid
  obtain ⟨chart, done⟩ := exists_completed inPlace ran
  obtain ⟨notes, loaded⟩ := done.loaded
  obtain ⟨values, rfl⟩ := done.extracted
  have left := done.left
  -- the run leaves no other text in the template's entry
  have own : Cache.covers template = true → ∀ path,
      config.cache.entry? template.name template.raw = some path →
      ∀ data, (config.cache.pristineAll chart.templates files).files.data? (destination path) =
        some data → data = template.raw := by
    intro covered path is data held
    obtain ⟨entry, named, there⟩ :=
      Cache.exists_entryName is fun _ => Cache.name_ne_of_covers covered
    replace there : destination path = cache ++ [entry] := there.trans (congrArg (· ++ [entry]) cached)
    rw [there, ← save_copy valid loaded named.dotless, ← left] at held
    have copies := (History.ran config flags history inPlace cached).exists_copy
      ⟨template, _, covered, named⟩ held
    generalize policy : config.cache.policy = kind at named
    cases named with
    | byName => exact sameName policy data held
    | byContent =>
      obtain ⟨copy, mem, covered', rfl, _, named'⟩ := copies
      exact sameDigits policy copy mem (Cache.EntryName.byContent.contentHash_eq covered' named')
  rw [left]
  rcases Chart.save_data? (destination config.root ++ rest) with same | ⟨document, mem, leads, -⟩
  · exact same.trans (Cache.pristineAll_keeps stands.data)
  -- what is written to the template's place is written for the template
  exfalso
  have name := (done.name_of_leads valid mem leads).trans stands.name.symm
  rcases exists_of_mem_written valid loaded mem with values | written
  · rw [← name, values, Chart.isTemplate_valuesName] at isTemplate
    cases isTemplate
  obtain ⟨template', isTemplate', name', differs, given, _, _, fate, gives, treats, rfl⟩ := written
  obtain ⟨-, rest', stands'⟩ := (Chart.mem_files_iff_of_load valid loaded template').mp
    (List.mem_filter.mp isTemplate').1
  obtain rfl := Chart.Stands.unique stands' stands (name'.symm.trans name)
  obtain rfl := Manifest.eq_of_raw_eq gives.name (gives.raw_eq own)
  refine differs (treats.document_eq fun decoded' decodes' => ?_)
  cases decodes.symm.trans decodes'.decoded
  exact Extractor.selecting_ofRules_eq_nil unselected

/-- There are different texts with the same digits, one of them of another type. -/
example : Cache.contentHash (Text.bytes "apiVersion: v1\nkind: A\na: x5ad2a35ce5690d47\n") =
    Cache.contentHash (Text.bytes "apiVersion: v1\nkind: B\na: x8c74230b77886d35\n") := by
  decide +kernel

/-! ## Small charts -/

/-- A template of a type that the one rule is not about. -/
def otherTemplate : Manifest := ⟨"templates/a.yaml", Text.bytes "apiVersion: v1\nkind: B\n"⟩

/-- What a chart of the other template and a value is loaded as. -/
def editedChart : Chart :=
  ⟨⟨"."⟩, [description, otherTemplate, ⟨"values.yaml", Text.bytes "k: '1'\n"⟩]⟩

/-- The chart that a run leaves, with the other template in the place of the one that it has moved a
value out of. -/
def singleEdited : FileTree := singleMoved.put ["templates", "a.yaml"] (.file otherTemplate.raw)

/-- The values of the edited chart are those that the run has moved. -/
lemma baseValues_editedChart : editedChart.baseValues true = .ok ⟨[("k", .string "1")]⟩ := by
  have read : (editedChart.baseValues true).toOption.map (fun values =>
      values.root.map fun entry => (entry.1, entry.2.asString?)) = some [("k", some "1")] := by
    decide +kernel
  obtain ⟨values, based, single⟩ := Option.map_eq_some_iff.mp read
  obtain rfl := eq_of_single single
  exact eq_ok_of_toOption based

/-- The other template can be read, and no rule is about it. -/
lemma unselected_otherTemplate : ∃ decoded, otherTemplate.decode = .ok decoded ∧
    ∀ rule ∈ small.rules, rule.selects decoded.selector = false := by
  have read : (otherTemplate.decode.toOption.map (·.selector)) = some ⟨"v1", "B"⟩ := by
    decide +kernel
  obtain ⟨decoded, decodes, selector⟩ := Option.map_eq_some_iff.mp read
  refine ⟨decoded, eq_ok_of_toOption decodes, ?_⟩
  rw [selector]
  decide +kernel

lemma load_singleEdited :
    ∃ notes, Chart.load (small.selection singleEdited) singleEdited = (notes, .ok editedChart) :=
  Chart.load_of_perm (eq_ok_get small_included) (eq_ok_get (small_excluded _))
    (by decide +kernel) (by decide +kernel) (by decide +kernel) (by decide +kernel)

/-- A run over the edited chart comes to its end. -/
lemma run_singleEdited :
    ∃ outcome, (small.run ⟨false, .off⟩ singleEdited).outcome = .ok outcome := by
  obtain ⟨notes, loaded⟩ := load_singleEdited
  obtain ⟨-, done⟩ := run_of_stages ⟨false, .off⟩ rfl rfl rfl loaded baseValues_editedChart
    (eq_of_nodes_eq (show _ = ([".helm-dump", "templates_a_yaml-e3629697d5fc0e45"],
      FileNode.file otherTemplate.raw) :: singleEdited.nodes by decide +kernel))
    (show _ = [otherTemplate] by decide +kernel) (show _ = [otherTemplate] by decide +kernel)
    (show _ = ⟨"values.yaml", Text.bytes "k: '1'\n"⟩ by decide +kernel)
  exact ⟨_, done (by decide +kernel)⟩

/-- The edited chart has been left by a run, but for the template. -/
lemma history_singleEdited : History [".helm-dump"] (small.templatesRead single) singleEdited := by
  have valid : single.Valid := ⟨by decide +kernel, by decide +kernel, by decide +kernel⟩
  have start : History [".helm-dump"] [] single := .start valid fun _ _ => rfl
  have ran : History [".helm-dump"] (small.templatesRead single) singleMoved := by
    rw [← run_single.1]
    exact .ran small ⟨false, .off⟩ start rfl (by decide +kernel)
  have free : singleMoved.at? ["templates", "a.yaml"] ≠ some .directory := by decide +kernel
  refine .edited ran (ran.valid.put free (by decide +kernel)) fun entry data _ held => ?_
  rw [singleEdited, FileTree.put_file_data? free, if_neg (by simp)] at held
  exact held

/-- A template of a type that no rule is about stays as it is, where the one in whose place it is had
its value moved before. -/
theorem run_untouched_edited : History [".helm-dump"] (small.templatesRead single) singleEdited ∧
    (∃ outcome, (small.run ⟨false, .off⟩ singleEdited).outcome = .ok outcome) ∧
    (small.run ⟨false, .off⟩ singleEdited).files.data? ["templates", "a.yaml"] =
      some otherTemplate.raw := by
  obtain ⟨outcome, ran⟩ := run_singleEdited
  obtain ⟨decoded, decodes, unselected⟩ := unselected_otherTemplate
  obtain ⟨_, loaded⟩ := load_single
  obtain ⟨_, loaded'⟩ := load_singleEdited
  have read : small.templatesRead single ++ small.templatesRead singleEdited =
      [⟨"templates/a.yaml", fieldText "1"⟩, otherTemplate] := by
    rw [templatesRead, loaded, templatesRead, loaded']
    show Chart.templates _ ++ Chart.templates _ = _
    decide +kernel
  have stands : Chart.Stands singleEdited small.root otherTemplate ["templates", "a.yaml"] :=
    ⟨by decide, by decide +kernel, rfl, by decide +kernel⟩
  refine ⟨history_singleEdited, ⟨outcome, ran⟩, ?_⟩
  refine run_untouched history_singleEdited rfl (by decide +kernel) ran stands (by decide) decodes
    unselected (fun byName => nomatch byName) fun _ => ?_
  rw [read]
  decide +kernel

/-- A run whose cache goes by name. -/
def smallByName : Config := { small with policy := .byName }

/-- The cache with a copy of the template under its name. -/
def singleNamed : List (Place × FileNode) :=
  [([".helm-dump", "templates_a_yaml"], .file (fieldText "1")), ([".helm-dump"], .directory)]

/-- What a run whose cache goes by name comes to over the chart of one template. -/
lemma run_single_byName : (smallByName.run ⟨false, .off⟩ single).files =
      ⟨[(["values.yaml"], .file (Text.bytes "k: '1'\n")),
        (["templates", "a.yaml"], .file (fieldText reference))] ++ singleNamed ++ bareChart⟩ ∧
    (smallByName.run ⟨false, .off⟩ single).outcome.toOption.isSome = true := by
  obtain ⟨notes, loaded⟩ := load_single
  have loaded : Chart.load (smallByName.selection single) single = _ := loaded
  obtain ⟨left, done⟩ := run_of_stages ⟨false, .off⟩ rfl rfl rfl loaded
    (show Chart.baseValues _ smallByName.mergeValues = .ok .empty from rfl)
    (eq_of_nodes_eq (show _ = singleNamed ++ single.nodes by decide +kernel))
    (show _ = [⟨"templates/a.yaml", fieldText "1"⟩] by decide +kernel)
    extracted_single.1 extracted_single.2.1
  refine ⟨left.trans (eq_of_nodes_eq (by decide +kernel)), ?_⟩
  rw [done (by decide +kernel)]
  rfl

/-- Where copies go by name, a run writes the copy that the first one has made, with its value moved,
over what the template has been edited to, although no rule is about that. -/
theorem run_of_edited :
    let first := (smallByName.run ⟨false, .off⟩ single).files
    let edited := first.put ["templates", "a.yaml"] (.file otherTemplate.raw)
    let second := smallByName.run ⟨false, .off⟩ edited
    (smallByName.run ⟨false, .off⟩ single).outcome.toOption.isSome = true ∧
      (∃ decoded, otherTemplate.decode = .ok decoded ∧
        ∀ rule ∈ smallByName.rules, rule.selects decoded.selector = false) ∧
      edited.data? ["templates", "a.yaml"] = some otherTemplate.raw ∧
      second.outcome.toOption.isSome = true ∧
      second.files.data? ["templates", "a.yaml"] = some (fieldText reference) ∧
      otherTemplate.raw ≠ fieldText reference := by
  intro first edited second
  obtain ⟨left, ran⟩ := run_single_byName
  have there : edited = ⟨[(["templates", "a.yaml"], .file otherTemplate.raw),
      (["values.yaml"], .file (Text.bytes "k: '1'\n"))] ++ singleNamed ++ bareChart⟩ := by
    rw [show edited = first.put _ _ from rfl, show first = _ from left]
    exact eq_of_nodes_eq (by decide +kernel)
  have loaded : ∃ notes, Chart.load (smallByName.selection edited) edited =
      (notes, .ok editedChart) := by
    rw [there]
    exact Chart.load_of_perm (eq_ok_get small_included) (eq_ok_get (small_excluded _))
      (by decide +kernel) (by decide +kernel) (by decide +kernel) (by decide +kernel)
  obtain ⟨notes, loaded⟩ := loaded
  obtain ⟨left', done⟩ := run_of_stages ⟨false, .off⟩ rfl rfl rfl loaded baseValues_editedChart
    (eq_of_nodes_eq (show _ = edited.nodes by rw [there]; decide +kernel))
    (show _ = [⟨"templates/a.yaml", fieldText "1"⟩] by rw [there]; decide +kernel)
    (show _ = [⟨"templates/a.yaml", fieldText reference⟩] by decide +kernel)
    (show _ = ⟨"values.yaml", Text.bytes "k: '1'\n"⟩ by decide +kernel)
  refine ⟨ran, unselected_otherTemplate, by rw [there]; decide +kernel, ?_, ?_, by decide +kernel⟩
  · rw [show second.outcome = _ from done (by rw [there]; decide +kernel)]
    rfl
  · rw [show second.files = _ from left', there]
    decide +kernel

end Config

end ChartLift
