import ChartLift.Proofs.Extraction.Run
import ChartLift.Proofs.Run.Stages

/-!
# Runs in place

How far a run in place gets (`Config.run_cases`), and what one that gets to its end leaves among the
files (`Config.Completed`): the values stand at the root (`Completed.stands_values`), and each template
is a document of the run or one that runs skip (`Completed.mem_documents_or_skipped`).
-/

namespace ChartLift

open FileTree (destination)

/-! ## Names -/

/-- A document whose name is not that of a YAML file is skipped. -/
lemma Extractor.exists_skipReason {document : Manifest} (notYaml : document.isYaml = false) :
    ∃ reason, skipReason? document = some reason := by
  rw [skipReason?, notYaml]
  split_ifs
  · exact ⟨_, rfl⟩
  · exact ⟨_, rfl⟩
  · contradiction

/-- A name that ends with a name without dots is not that of a YAML file. -/
lemma Manifest.isYaml_eq_false {document : Manifest} {place : Place} {entry : String}
    (name : document.name = Place.display (place ++ [entry])) (dot : '.' ∉ entry.toList) :
    document.isYaml = false := by
  have ends : ∀ ending : List Char, '.' ∈ ending → '/' ∉ ending →
      ¬ ending <:+ document.name.toList := by
    intro ending dotted slashless suffix
    rw [name] at suffix
    obtain ⟨-, alone⟩ | ⟨before, behind⟩ := Place.exists_toList_display_concat place entry
    · rw [alone] at suffix
      exact dot (suffix.subset dotted)
    · rw [behind] at suffix
      -- the ending does not reach the slash before the entry
      rcases List.suffix_or_suffix_of_suffix suffix (List.suffix_append before _) with
        inside | outside
      · rcases List.suffix_cons_iff.mp inside with rfl | within
        · exact slashless List.mem_cons_self
        · exact dot (within.subset dotted)
      · exact slashless (outside.subset List.mem_cons_self)
  have yaml := ends ".yaml".toList (by decide) (by decide)
  have yml := ends ".yml".toList (by decide) (by decide)
  rw [Manifest.isYaml, Bool.or_eq_false_iff]
  exact ⟨Bool.eq_false_iff.mpr fun h => yaml (List.isSuffixOf_iff_suffix.mp h),
    Bool.eq_false_iff.mpr fun h => yml (List.isSuffixOf_iff_suffix.mp h)⟩

lemma isName_valuesName : Place.IsName valuesName :=
  ⟨by decide, by decide, by decide, by decide⟩

lemma Chart.leads_valuesName : Chart.Leads valuesName [valuesName] :=
  ⟨by simp, by simpa using isName_valuesName, rfl⟩

lemma Chart.isTemplate_valuesName : Chart.isTemplate valuesName = false := by
  decide

lemma FileTree.sameDirectory_self (files : FileTree) (path : FilePath) :
    files.sameDirectory path path = true := by
  rw [sameDirectory]
  split
  · rename_i first second
    rw [first] at second
    exact beq_iff_eq.mpr (Option.some.inj second)
  · rw [FilePath.sameSteps, beq_self_eq_true]

/-- Paths to different places are not those of one directory. -/
lemma FileTree.sameDirectory_eq_false (files : FileTree) {path other : FilePath}
    (apart : destination path ≠ destination other) : files.sameDirectory path other = false := by
  rw [sameDirectory]
  split
  · rename_i first second
    rw [eq_destination_of_existing first, eq_destination_of_existing second]
    exact beq_eq_false_iff_ne.mpr apart
  · refine beq_eq_false_iff_ne.mpr fun same => apart ?_
    rw [destination_eq_foldl_steps, same, ← destination_eq_foldl_steps]

namespace Config

variable {config : Config} {flags flags' : RunFlags} {files : FileTree} {notes : List Note}
  {chart : Chart} {outcome : Outcome} {place : Place}

/-- What a run in place writes: the documents that have changed, and the values. -/
def written (chart : Chart) (outcome : Outcome) : List Manifest :=
  outcome.documents.filter (fun document =>
    (chart.file? document.name).map (·.raw) != some document.raw) ++ [outcome.valuesDocument]

/-- Where the documents are the templates, only the values are written. -/
lemma written_of_unchanged {selection : Selection} (valid : files.Valid)
    (loaded : Chart.load selection files = (notes, .ok chart))
    (documents : outcome.documents = chart.templates) :
    written chart outcome = [outcome.valuesDocument] := by
  have unchanged : chart.templates.filter (fun document =>
      (chart.file? document.name).map (·.raw) != some document.raw) = [] := by
    refine List.filter_eq_nil_iff.mpr fun template mem => ?_
    rw [Chart.file?_eq_of_mem valid loaded (List.mem_filter.mp mem).1]
    simp
  rw [written, documents, unchanged, List.nil_append]

/-- In place, the same is selected whatever files there are. -/
lemma selection_inPlace (inPlace : config.outputDirectory = none) (files : FileTree) :
    config.selection files =
      ⟨config.root, config.included, config.excluded, [config.resolvedCache]⟩ := by
  rw [selection, resolvedOutput, inPlace]
  dsimp only [Option.getD_none]
  rw [if_pos (FileTree.sameDirectory_self files config.root)]

/-- In place, a chart is delivered to its root. -/
lemma delivery_inPlace (inPlace : config.outputDirectory = none)
    (root : chart.root = config.root) (outcome : Outcome) (files : FileTree) :
    config.delivery chart outcome files = .ok (config.root, written chart outcome) := by
  rw [delivery, resolvedOutput, inPlace, root]
  dsimp only [Option.getD_none]
  rw [if_pos (FileTree.sameDirectory_self files config.root), written]

/-- How far a run in place gets: to the loaded chart, to its pristine templates, or to the end. -/
lemma run_cases (inPlace : config.outputDirectory = none) (flags : RunFlags) (files : FileTree) :
    ((config.run flags files).files = files ∧ ∃ fault, (config.run flags files).outcome = .error fault) ∨
    ∃ notes chart, Chart.load (config.selection files) files = (notes, .ok chart) ∧
      let pristine := config.cache.pristineAll chart.templates files
      ((config.run flags files).files = pristine.files ∧
        ∃ fault, (config.run flags files).outcome = .error fault) ∨
      ∃ values, chart.baseValues config.mergeValues = .ok values ∧
        let outcome := config.extractor.run pristine.templates values
        let saved := Chart.save config.root (written chart outcome) pristine.files
        (config.run flags files).files = saved.files ∧
          ((∃ fault, (config.run flags files).outcome = .error fault) ∨
            (config.run flags files).outcome = .ok outcome ∧ ∃ count, saved.count = .ok count) := by
  have delivered : ∀ {chart outcome files' directory documents} {notes : List Note},
      Chart.load (config.selection files) files = (notes, .ok chart) →
      config.delivery chart outcome files' = .ok (directory, documents) →
      directory = config.root ∧ documents = written chart outcome := by
    intro chart outcome files' directory documents notes loaded delivered
    rw [delivery_inPlace inPlace ((Chart.root_eq_of_load loaded).trans rfl)] at delivered
    cases delivered
    exact ⟨rfl, rfl⟩
  have comes := comesTo_run config flags files
  generalize config.run flags files = result at comes ⊢
  cases comes with
  | unruled => exact .inl ⟨rfl, _, rfl⟩
  | unloaded => exact .inl ⟨rfl, _, rfl⟩
  | unbased _ loaded => exact .inr ⟨_, _, loaded, .inl ⟨rfl, _, rfl⟩⟩
  | undelivered extracts =>
    obtain ⟨notes, loaded⟩ := extracts.loaded
    exact .inr ⟨_, _, loaded, .inl ⟨rfl, _, rfl⟩⟩
  | unsaved extracts there =>
    obtain ⟨notes, loaded⟩ := extracts.loaded
    obtain ⟨rfl, rfl⟩ := delivered loaded there
    exact .inr ⟨_, _, loaded, .inr ⟨_, extracts.based, rfl, .inl ⟨_, rfl⟩⟩⟩
  | saved extracts there counted =>
    obtain ⟨notes, loaded⟩ := extracts.loaded
    obtain ⟨rfl, rfl⟩ := delivered loaded there
    refine .inr ⟨_, _, loaded, .inr ⟨_, extracts.based, rfl, ?_⟩⟩
    dsimp only
    split_ifs
    · exact .inl ⟨_, rfl⟩
    · exact .inr ⟨rfl, _, counted⟩

/-- What a run in place comes to, stage by stage. -/
lemma run_of_stages {values : ValuesTree} {pristine : FileTree} {templates documents : List Manifest}
    {valuesDocument : Manifest} (flags : RunFlags) (inPlace : config.outputDirectory = none)
    (rules : config.rules.isEmpty = false) (lax : flags.strict = false)
    (loaded : Chart.load (config.selection files) files = (notes, .ok chart))
    (based : chart.baseValues config.mergeValues = .ok values)
    (stored : (config.cache.pristineAll chart.templates files).files = pristine)
    (given : (config.cache.pristineAll chart.templates files).templates = templates)
    (rewritten : (config.extractor.run templates values).documents = documents)
    (collected : (config.extractor.run templates values).valuesDocument = valuesDocument) :
    let saved := Chart.save config.root (documents.filter (fun document =>
      (chart.file? document.name).map (·.raw) != some document.raw) ++ [valuesDocument]) pristine
    (config.run flags files).files = saved.files ∧ (saved.count.toOption.isSome = true →
      (config.run flags files).outcome = .ok (config.extractor.run templates values)) := by
  subst stored given rewritten collected
  have extracts : Extracts config files chart values :=
    ⟨fun none => by simp [none] at rules, ⟨_, loaded⟩, based⟩
  obtain ⟨left, done⟩ := run_of_delivery flags extracts
    (delivery_inPlace inPlace ((Chart.root_eq_of_load loaded).trans rfl) _ _)
  exact ⟨left, done lax⟩

/-- A run in place that has come to its end, by its stages. -/
structure Completed (config : Config) (files : FileTree) (chart : Chart) (outcome : Outcome)
    (after : FileTree) : Prop where
  loaded : ∃ notes, Chart.load (config.selection files) files = (notes, .ok chart)
  extracted : ∃ values, outcome =
    config.extractor.run (config.cache.pristineAll chart.templates files).templates values
  saved : ∃ count, (Chart.save config.root (written chart outcome)
    (config.cache.pristineAll chart.templates files).files).count = .ok count
  left : after = (Chart.save config.root (written chart outcome)
    (config.cache.pristineAll chart.templates files).files).files

/-- A run in place that has an outcome has come to its end. -/
lemma exists_completed (inPlace : config.outputDirectory = none)
    (ran : (config.run flags files).outcome = .ok outcome) :
    ∃ chart, Completed config files chart outcome (config.run flags files).files := by
  rcases run_cases inPlace flags files with ⟨-, fault, failed⟩ | ⟨notes, chart, loaded, stages⟩
  · rw [failed] at ran
    cases ran
  rcases stages with ⟨-, fault, failed⟩ | ⟨values, -, left, ⟨fault, failed⟩ | ⟨done, saved⟩⟩
  · rw [failed] at ran
    cases ran
  · rw [failed] at ran
    cases ran
  · obtain rfl := Except.ok.inj (done.symm.trans ran)
    exact ⟨chart, ⟨notes, loaded⟩, ⟨values, rfl⟩, saved, left⟩

namespace Completed

variable {after : FileTree} {document : Manifest} {rest : Place}

/-- The documents are as many as the templates and have their names. -/
lemma names (done : Completed config files chart outcome after) :
    outcome.documents.map (·.name) = chart.templates.map (·.name) := by
  obtain ⟨values, rfl⟩ := done.extracted
  rw [Extractor.run_names, Cache.pristineAll_names]

lemma valuesDocument_name (done : Completed config files chart outcome after) :
    outcome.valuesDocument.name = valuesName := by
  obtain ⟨values, rfl⟩ := done.extracted
  rw [Extractor.run_valuesDocument]
  rfl

lemma valid (done : Completed config files chart outcome after) (valid : files.Valid) :
    after.Valid := by
  rw [done.left]
  exact Chart.save_valid (Cache.pristineAll_valid valid)

/-- A document has the name of a template. -/
lemma exists_template (done : Completed config files chart outcome after) (valid : files.Valid)
    (mem : document ∈ outcome.documents) : Chart.isTemplate document.name = true ∧
      ∃ rest, Chart.Leads document.name rest := by
  obtain ⟨notes, loaded⟩ := done.loaded
  obtain ⟨isTemplate, template, rest, stands, same⟩ :=
    Chart.exists_stands_of_names valid loaded done.names mem
  exact ⟨isTemplate, rest, same ▸ stands.leads⟩

/-- What is written to a place has its name. -/
lemma name_of_leads (done : Completed config files chart outcome after) (valid : files.Valid)
    (mem : document ∈ written chart outcome)
    (leads : destination (config.root.join ⟨document.name⟩) = destination config.root ++ rest) :
    document.name = rest.display := by
  rcases List.mem_append.mp mem with changed | values
  · obtain ⟨-, rest', leads'⟩ := done.exists_template valid (List.mem_filter.mp changed).1
    rw [leads'.destination] at leads
    rw [leads'.display, List.append_cancel_left leads]
  · rw [List.mem_singleton.mp values, done.valuesDocument_name] at leads ⊢
    rw [FileTree.destination_join _ isName_valuesName] at leads
    rw [← List.append_cancel_left leads]
    rfl

/-- Where a file below the root comes from at the end of a run: it has been written, or it was there
and nothing of its name has been written, or it is an entry of the cache. -/
lemma source (done : Completed config files chart outcome after) (valid : files.Valid)
    (policy : config.policy = .byContent) {file : Manifest}
    (stands : Chart.Stands after config.root file rest) :
    file ∈ written chart outcome ∨
    (Chart.Stands files config.root file rest ∧
      ∀ document ∈ written chart outcome, document.name ≠ file.name) ∨
    ∃ entry, '.' ∉ entry.toList ∧
      destination config.root ++ rest = destination config.resolvedCache ++ [entry] := by
  have found := stands.data
  have leads := stands.destination
  obtain ⟨count, saved⟩ := done.saved
  rw [done.left] at found
  have here : ∀ document ∈ written chart outcome,
      destination (config.root.join ⟨document.name⟩) = destination config.root ++ rest →
      (Chart.save config.root (written chart outcome)
        (config.cache.pristineAll chart.templates files).files).files.data?
          (destination config.root ++ rest) = some document.raw → document = file := by
    intro document mem leads written
    have name := done.name_of_leads valid mem leads
    exact Manifest.eq_of_raw_eq (name.trans stands.name.symm)
      (Option.some.inj (written.symm.trans found))
  by_cases wrote : ∃ document ∈ written chart outcome, document.name = file.name
  · -- then what stands there has been written, if not for this document then for one of its name
    obtain ⟨document, mem, name⟩ := wrote
    obtain ⟨other, member, same, stored⟩ := Chart.save_written saved mem
    rw [name, leads] at same stored
    exact .inl (here other member same stored ▸ member)
  · rcases Chart.save_data? (destination config.root ++ rest) with
      same | ⟨document, mem, leads', stored⟩
    · right
      rw [same] at found
      rcases Cache.pristineAll_data? (destination config.root ++ rest) with
        before | ⟨template, -, adds⟩
      · refine .inl ⟨⟨stands.below, stands.named, stands.name, before.symm.trans found⟩, ?_⟩
        exact fun document mem name => wrote ⟨document, mem, name⟩
      · obtain ⟨path, entry, leads'⟩ := adds.entry
        obtain ⟨name, dot, there⟩ := Cache.exists_entry policy entry
        exact .inr ⟨name, dot, leads'.symm.trans there⟩
    · exact .inl (here document mem leads' stored ▸ mem)

/-- A template that stands there at the end of a run is a document of the run, or skipped. -/
lemma mem_documents_or_skipped (done : Completed config files chart outcome after)
    (valid : files.Valid) (policy : config.policy = .byContent) {template : Manifest}
    (stands : Chart.Stands after config.root template rest)
    (selected : (config.selection files).Selects template.name)
    (isTemplate : Chart.isTemplate template.name = true) :
    template ∈ outcome.documents ∨ ∃ reason, Extractor.skipReason? template = some reason := by
  rcases done.source valid policy stands with wrote | ⟨before, unwritten⟩ | ⟨entry, dot, there⟩
  · rcases List.mem_append.mp wrote with changed | values
    · exact .inl (List.mem_filter.mp changed).1
    · rw [List.mem_singleton.mp values, done.valuesDocument_name,
        Chart.isTemplate_valuesName] at isTemplate
      cases isTemplate
  · left
    obtain ⟨notes, loaded⟩ := done.loaded
    have member : template ∈ chart.files :=
      (Chart.mem_files_iff_of_load valid loaded template).mpr ⟨selected, rest, before⟩
    have named : template.name ∈ outcome.documents.map (·.name) :=
      done.names ▸ List.mem_map.mpr ⟨template, List.mem_filter.mpr ⟨member, isTemplate⟩, rfl⟩
    obtain ⟨document, mem, name⟩ := List.mem_map.mp named
    -- the document would have been written if it had changed
    by_cases same : document.raw = template.raw
    · exact Manifest.eq_of_raw_eq name same ▸ mem
    · have wrote : document ∈ written chart outcome := by
        refine List.mem_append_left _ (List.mem_filter.mpr ⟨mem, ?_⟩)
        rw [name, Chart.file?_eq_of_mem valid loaded member]
        simpa using Ne.symm same
      exact absurd name (unwritten document wrote)
  · right
    obtain ⟨above, last, rfl⟩ := List.eq_nil_or_concat'  rest |>.resolve_left stands.below
    rw [← List.append_assoc] at there
    obtain ⟨-, rfl⟩ := List.append_inj' there rfl |>.imp id List.singleton_inj.mp
    exact Extractor.exists_skipReason (Manifest.isYaml_eq_false stands.name dot)

/-- At the end of a run the values stand at the root. -/
lemma stands_values (done : Completed config files chart outcome after) (valid : files.Valid) :
    Chart.Stands after config.root outcome.valuesDocument [valuesName] := by
  have name := done.valuesDocument_name
  refine ⟨List.cons_ne_nil _ _, by simpa using isName_valuesName, name, ?_⟩
  obtain ⟨count, saved⟩ := done.saved
  have mem : outcome.valuesDocument ∈ written chart outcome :=
    List.mem_append_right _ (List.mem_singleton_self _)
  obtain ⟨other, member, leads, stored⟩ := Chart.save_written saved mem
  rw [name, FileTree.destination_join _ isName_valuesName] at leads stored
  rw [done.left, stored]
  rcases List.mem_append.mp member with changed | values
  · obtain ⟨isTemplate, -⟩ := done.exists_template valid (List.mem_filter.mp changed).1
    have clash := done.name_of_leads valid member leads
    rw [clash] at isTemplate
    exact absurd isTemplate (by decide)
  · rw [List.mem_singleton.mp values]

/-- The templates that are loaded at the end of a run are documents of the run, or skipped. -/
lemma templates_again (done : Completed config files chart outcome after) (valid : files.Valid)
    (policy : config.policy = .byContent) {chart' : Chart}
    (loaded : Chart.load (config.selection files) after = (notes, .ok chart')) :
    ∀ template ∈ chart'.templates, template ∈ outcome.documents ∨
      ∃ reason, Extractor.skipReason? template = some reason := by
  intro template mem
  obtain ⟨file, isTemplate⟩ := List.mem_filter.mp mem
  obtain ⟨selected, rest, stands⟩ :=
    (Chart.mem_files_iff_of_load (done.valid valid) loaded template).mp file
  exact done.mem_documents_or_skipped valid policy stands selected isTemplate

/-- The file of values that is loaded at the end of a run is that of the run. -/
lemma values?_again (done : Completed config files chart outcome after) (valid : files.Valid)
    {chart' : Chart} (loaded : Chart.load (config.selection files) after = (notes, .ok chart'))
    (selected : (config.selection files).Selects valuesName) :
    chart'.values? = some outcome.valuesDocument := by
  have mem : outcome.valuesDocument ∈ chart'.files := by
    refine (Chart.mem_files_iff_of_load (done.valid valid) loaded _).mpr
      ⟨?_, _, done.stands_values valid⟩
    rw [done.valuesDocument_name]
    exact selected
  rw [Chart.values?, ← done.valuesDocument_name]
  exact Chart.file?_eq_of_mem (done.valid valid) loaded mem

end Completed

end Config

end ChartLift
