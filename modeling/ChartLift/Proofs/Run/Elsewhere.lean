import ChartLift.Proofs.Run.Skipped
import ChartLift.Proofs.Run.Stages

/-!
# Runs to another directory

What a run that writes to another directory than the root leaves (`Config.Delivers`): below the name of
the chart stands all of the chart, each file written once, and no other file has changed outside of the
cache (`Config.run_elsewhere`).
-/

namespace ChartLift

open Text (Bytes)
open FileTree (destination)

namespace Chart

variable {selection : Selection} {files : FileTree} {notes : List Note} {chart : Chart}
  {outcome : Outcome} {name : String}

/-- A usable name of a chart is that of one directory. -/
lemma isName_of_name (h : chart.name = .ok name) : Place.IsName name := by
  rw [Chart.name] at h
  split at h
  · cases h
  split at h
  · cases h
  dsimp only at h
  split at h
  · rename_i usable
    cases h
    simp only [isUsableName, Bool.and_eq_true, Bool.not_eq_true', bne_iff_ne] at usable
    obtain ⟨⟨⟨nonempty, onward⟩, downward⟩, slashless⟩ := usable
    refine ⟨fun empty => ?_, fun mem => ?_, onward, downward⟩
    · rw [empty] at nonempty
      cases nonempty
    · simpa using List.any_eq_false.mp slashless '/' mem
  · cases h

/-- What is written of a chart to another directory: all of it, rewritten. -/
def outgoing (chart : Chart) (outcome : Outcome) : List Manifest :=
  chart.passthrough ++ outcome.documents ++ [outcome.valuesDocument]

lemma mem_outgoing_iff {document : Manifest} : document ∈ chart.outgoing outcome ↔
    document ∈ chart.passthrough ∨ document ∈ outcome.documents ∨ document = outcome.valuesDocument := by
  simp [outgoing]

section Outgoing

variable (documents : outcome.documents.map (·.name) = chart.templates.map (·.name))
  (values : outcome.valuesDocument.name = valuesName)

include documents values

/-- The names of the files that are written are those of the chart's files, and the values'. -/
lemma outgoing_names : ((chart.outgoing outcome).map (·.name)).Perm
    ((chart.files.filter (·.name != valuesName)).map (·.name) ++ [valuesName]) := by
  have passthrough : chart.passthrough =
      (chart.files.filter (·.name != valuesName)).filter (!isTemplate ·.name) := by
    rw [Chart.passthrough, List.filter_filter]
  -- the values are no template
  have templates : chart.templates =
      (chart.files.filter (·.name != valuesName)).filter (isTemplate ·.name) := by
    rw [Chart.templates, List.filter_filter]
    refine List.filter_congr fun file _ => ?_
    cases isTemplate : isTemplate file.name with
    | false => rfl
    | true =>
      have other : file.name ≠ valuesName := by
        intro same
        rw [same, isTemplate_valuesName] at isTemplate
        cases isTemplate
      simp [other]
  rw [outgoing, List.map_append, List.map_append, documents, List.map_singleton, values,
    passthrough, templates, ← List.map_append]
  refine List.Perm.append_right _ (List.Perm.map _ ?_)
  exact List.perm_append_comm.trans (List.filter_append_perm _ _)

/-- No name is written twice. -/
lemma nodup_outgoing (valid : files.Valid) (loaded : load selection files = (notes, .ok chart)) :
    ((chart.outgoing outcome).map (·.name)).Nodup := by
  rw [(outgoing_names documents values).nodup_iff]
  refine ((nodup_names_of_load valid loaded).sublist (List.filter_sublist.map _)).append
    (List.nodup_singleton _) ?_
  rintro name mem last
  obtain rfl := List.mem_singleton.mp last
  obtain ⟨file, kept, same⟩ := List.mem_map.mp mem
  simp [same] at kept

/-- The names that are written lead below the directory that they are written to. -/
lemma leads_of_mem_outgoing (valid : files.Valid) (loaded : load selection files = (notes, .ok chart))
    {document : Manifest} (mem : document ∈ chart.outgoing outcome) :
    ∃ rest, Leads document.name rest := by
  have among : document.name ∈
      (chart.files.filter (·.name != valuesName)).map (·.name) ++ [valuesName] :=
    (outgoing_names documents values).subset (List.mem_map.mpr ⟨document, mem, rfl⟩)
  rcases List.mem_append.mp among with file | last
  · obtain ⟨file, kept, same⟩ := List.mem_map.mp file
    obtain ⟨-, rest, stands⟩ :=
      (mem_files_iff_of_load valid loaded file).mp (List.mem_filter.mp kept).1
    exact ⟨rest, same ▸ stands.leads⟩
  · rw [List.mem_singleton.mp last]
    exact ⟨[valuesName], leads_valuesName⟩

end Outgoing

end Chart

namespace Config

variable {config : Config} {flags : RunFlags} {files : FileTree} {chart : Chart} {outcome : Outcome}

/-- What a run that has written a chart to another directory leaves. -/
structure Delivers (config : Config) (files : FileTree) (outcome : Outcome) (result : RunResult)
    (chart : Chart) (name : String) (directory : FilePath) : Prop where
  loaded : ∃ notes, Chart.load (config.selection files) files = (notes, .ok chart)
  named : chart.name = .ok name
  extracted : ∃ values, chart.baseValues config.mergeValues = .ok values ∧
    outcome = config.extracted chart values files
  /-- The directory is that of the chart's name below the one that the run writes to. -/
  below : directory = config.resolvedOutput.join ⟨name⟩ ∧
    destination directory = destination config.resolvedOutput ++ [name]
  /-- What is neither a template nor the values has the bytes that have been loaded. -/
  passed : ∀ file ∈ chart.files, Chart.isTemplate file.name = false → file.name ≠ valuesName →
    ∃ rest, Chart.Stands result.files directory file rest
  /-- Each template has the bytes of its document. -/
  rewritten : outcome.documents.map (·.name) = chart.templates.map (·.name) ∧
    ∀ document ∈ outcome.documents, ∃ rest, Chart.Stands result.files directory document rest
  values : Chart.Stands result.files directory ⟨valuesName, Text.bytes outcome.values.document⟩
    [valuesName]
  /-- Each file of the chart is written, and the values, and none of them twice. -/
  once : ((chart.outgoing outcome).map (·.name)).Nodup ∧
    ((chart.outgoing outcome).map (·.name)).Perm
      ((chart.files.filter (·.name != valuesName)).map (·.name) ++ [valuesName])
  written : result.files =
    (Chart.save directory (chart.outgoing outcome) (config.pristine chart files).files).files
  counted : result.summary = outcome.summary directory (chart.outgoing outcome).length
  elsewhere : ∀ place, ¬ destination directory <+: place →
    ¬ destination config.resolvedCache <+: place → result.files.data? place = files.data? place

/-- What is delivered elsewhere is all of the chart, below its name. -/
lemma delivery_elsewhere {directory : FilePath} {documents : List Manifest}
    (root : chart.root = config.root)
    (apart : destination config.resolvedOutput ≠ destination config.root)
    (delivered : config.delivery chart outcome files = .ok (directory, documents)) :
    ∃ name, chart.name = .ok name ∧ directory = config.resolvedOutput.join ⟨name⟩ ∧
      documents = chart.outgoing outcome := by
  rw [delivery, root] at delivered
  dsimp only at delivered
  rw [if_neg (by simp [FileTree.sameDirectory_eq_false files apart])] at delivered
  split at delivered
  · cases delivered
  · rename_i name named
    cases delivered
    exact ⟨name, named, rfl, rfl⟩

/-- Wherever a chart is delivered, no more is than all of it. -/
lemma mem_outgoing_of_delivery {directory : FilePath} {documents : List Manifest}
    (delivered : config.delivery chart outcome files = .ok (directory, documents)) {document : Manifest}
    (mem : document ∈ documents) : document ∈ chart.outgoing outcome := by
  rw [delivery] at delivered
  dsimp only at delivered
  split at delivered
  · cases delivered
    rw [Chart.mem_outgoing_iff]
    rcases List.mem_append.mp mem with changed | values
    · exact .inr (.inl (List.mem_filter.mp changed).1)
    · exact .inr (.inr (List.mem_singleton.mp values))
  split at delivered
  · cases delivered
  · cases delivered
    exact mem

/-- A run to another directory that has an outcome leaves all of the chart there, and all else, outside
of the cache, as it was. -/
theorem run_elsewhere (valid : files.Valid)
    (apart : destination config.resolvedOutput ≠ destination config.root)
    (ran : (config.run flags files).outcome = .ok outcome) :
    ∃ chart name directory,
      config.Delivers files outcome (config.run flags files) chart name directory := by
  have comes := comesTo_run config flags files
  generalize config.run flags files = result at comes ran ⊢
  cases comes with
  | unruled => cases ran
  | unloaded => cases ran
  | unbased => cases ran
  | undelivered => cases ran
  | unsaved => cases ran
  | @saved chart values directory documents notes written extracts delivered saved =>
  dsimp only at ran
  split at ran
  · cases ran
  obtain rfl := Except.ok.inj ran
  obtain ⟨loadNotes, loaded⟩ := extracts.loaded
  obtain ⟨name, named, rfl, rfl⟩ :=
    delivery_elsewhere (Chart.root_eq_of_load loaded) apart delivered
  -- the written names are those of the chart, so they lead below its directory, each to its own place
  have names : (config.extracted chart values files).documents.map (·.name) =
      chart.templates.map (·.name) := by
    rw [extracted, Extractor.run_names]
    exact Cache.pristineAll_names
  have document : (config.extracted chart values files).valuesDocument =
      ⟨valuesName, Text.bytes (config.extracted chart values files).values.document⟩ :=
    Extractor.run_valuesDocument _ _ _
  have valuesNamed := congrArg Manifest.name document
  have lead : ∀ document ∈ chart.outgoing (config.extracted chart values files),
      ∃ rest, Chart.Leads document.name rest :=
    fun _ mem => Chart.leads_of_mem_outgoing names valuesNamed valid loaded mem
  have once := Chart.nodup_outgoing names valuesNamed valid loaded
  have stands : ∀ document ∈ chart.outgoing (config.extracted chart values files), ∃ rest,
      Chart.Stands (Chart.save (config.resolvedOutput.join ⟨name⟩)
        (chart.outgoing (config.extracted chart values files)) (config.pristine chart files).files).files
          (config.resolvedOutput.join ⟨name⟩) document rest := by
    intro document mem
    obtain ⟨rest, leads⟩ := lead document mem
    exact ⟨rest, Chart.stands_of_save saved lead once mem leads⟩
  refine ⟨chart, name, config.resolvedOutput.join ⟨name⟩, ?_⟩
  refine
    { loaded := ⟨_, loaded⟩
      named := named
      extracted := ⟨values, extracts.based, rfl⟩
      below := ⟨rfl, FileTree.destination_join _ (Chart.isName_of_name named)⟩
      passed := fun file mem noTemplate other => stands file ?_
      rewritten := ⟨names, fun document mem => stands document ?_⟩
      values := Chart.stands_of_save saved lead once ?_ Chart.leads_valuesName
      once := ⟨once, Chart.outgoing_names names valuesNamed⟩
      written := rfl
      counted := by rw [Chart.count_of_save saved]
      elsewhere := fun place outside uncached => ?_ }
  · refine Chart.mem_outgoing_iff.mpr (.inl (List.mem_filter.mpr ⟨mem, ?_⟩))
    simp [noTemplate, other]
  · exact Chart.mem_outgoing_iff.mpr (.inr (.inl mem))
  · exact Chart.mem_outgoing_iff.mpr (.inr (.inr document.symm))
  · have cached : (config.pristine chart files).files.data? place = files.data? place :=
      Cache.pristineAll_outside uncached
    exact (Chart.save_outside lead outside).trans cached

lemma name_single : Chart.name ⟨⟨"."⟩, [description, ⟨"templates/a.yaml", fieldText "1"⟩]⟩ = .ok "c" :=
  eq_ok_of_toOption (by decide +kernel)

lemma excluded_single :
    (Glob.readAll ((writingTo "out").selection single).exclusions).toOption.isSome = true := by
  decide +kernel

/-- A run over the chart of one template, to a directory that is not there yet. -/
theorem run_elsewhere_single : let config := writingTo "out"
    single.Valid ∧ destination config.resolvedOutput ≠ destination config.root ∧
      ∃ outcome chart name directory, (config.run ⟨false, .off⟩ single).outcome = .ok outcome ∧
        config.Delivers single outcome (config.run ⟨false, .off⟩ single) chart name directory := by
  intro config
  have valid : single.Valid := ⟨by decide +kernel, by decide +kernel, by decide +kernel⟩
  have apart : destination config.resolvedOutput ≠ destination config.root := by decide +kernel
  have loaded : ∃ notes, Chart.load (config.selection single) single =
      (notes, .ok ⟨⟨"."⟩, [description, ⟨"templates/a.yaml", fieldText "1"⟩]⟩) :=
    Chart.load_of_perm (eq_ok_get small_included) (eq_ok_get excluded_single)
      (by decide +kernel) (by decide +kernel) (by decide +kernel) (by decide +kernel)
  generalize here : (⟨⟨"."⟩, [description, ⟨"templates/a.yaml", fieldText "1"⟩]⟩ : Chart) = chart
    at loaded
  have extracts : Extracts config single chart .empty := ⟨by decide, loaded, by rw [← here]; rfl⟩
  have stored : (config.pristine chart single).files = ⟨singleCached ++ single.nodes⟩ := by
    rw [← here]
    exact eq_of_nodes_eq (by decide +kernel)
  have given : (config.pristine chart single).templates = [⟨"templates/a.yaml", fieldText "1"⟩] := by
    rw [← here]
    decide +kernel
  have delivered : config.delivery chart (config.extracted chart .empty single)
      (config.pristine chart single).files = .ok (config.resolvedOutput.join ⟨"c"⟩,
        chart.outgoing (config.extracted chart .empty single)) := by
    rw [delivery, show chart.root = config.root by rw [← here]; rfl]
    dsimp only
    rw [FileTree.sameDirectory_eq_false _ apart, if_neg Bool.false_ne_true, ← here, name_single]
    rfl
  obtain ⟨left, done⟩ := run_of_delivery ⟨false, .off⟩ extracts delivered
  have ran := done rfl (by
    obtain ⟨documents, document, -⟩ := extracted_single
    rw [Chart.outgoing, extracted, given, show config.extractor = small.extractor from rfl, documents,
      document, stored, ← here]
    decide +kernel)
  obtain ⟨chart, name, directory, delivers⟩ := run_elsewhere valid apart ran
  exact ⟨valid, apart, _, chart, name, directory, ran, delivers⟩

end Config

end ChartLift
