import ChartLift.Proofs.Chart.Concurrence
import ChartLift.Proofs.Run.Elsewhere
import ChartLift.Proofs.Run.Untouched

/-!
# Runs with a cache and without

A run whose copies go by content comes to the same as one without a cache, whatever has been run and
edited before (`Config.run_transparent`): the cache gives each template as it is (`Past.faithful`), so the
same documents are written, and they are written alike unless something that has been made for the cache is
in their way (`Config.Unhindered`). In place, that is at most a directory where the values are to stand
(`Config.unhindered_of_inPlace`), and it does get in the way (`Config.run_blocked`).
-/

namespace ChartLift

open Text (Bytes)
open FileTree (destination)

namespace Config

variable {config : Config} {flags : RunFlags} {files files' : FileTree} {chart : Chart}
  {values : ValuesTree} {outcome : Outcome} {cache : Place} {read : List Manifest} {entry : String}
  {data : Bytes}

/-! ## Without a cache -/

/-- A configuration with its cache off. -/
def uncached (config : Config) : Config := { config with policy := .off }

lemma uncached_pristine (config : Config) (chart : Chart) (files : FileTree) :
    config.uncached.pristine chart files = ⟨files, [], chart.templates⟩ :=
  Cache.pristineAll_off rfl _ _

lemma Extracts.uncached (extracts : Extracts config files chart values) :
    Extracts config.uncached files chart values :=
  ⟨extracts.ruled, extracts.loaded, extracts.based⟩

/-! ## Pasts -/

/-- The files that a run has when it has looked its templates up. -/
def lookedUp (config : Config) (files : FileTree) : FileTree :=
  (config.cache.pristineAll (config.templatesRead files) files).files

lemma templatesRead_of_load {notes : List Note}
    (loaded : Chart.load (config.selection files) files = (notes, .ok chart)) :
    config.templatesRead files = chart.templates := by
  rw [templatesRead, loaded]

lemma lookedUp_of_load {notes : List Note}
    (loaded : Chart.load (config.selection files) files = (notes, .ok chart)) :
    config.lookedUp files = (config.pristine chart files).files := by
  rw [lookedUp, templatesRead_of_load loaded]
  rfl

/-- That a run writes over no copy in a directory. -/
def KeepsCopies (config : Config) (flags : RunFlags) (files : FileTree) (cache : Place) : Prop :=
  ∀ entry data, Cache.NamesCopy entry →
    (config.run flags files).files.data? (cache ++ [entry]) = some data →
    (config.lookedUp files).data? (cache ++ [entry]) = some data

/-- Files as runs by content leave them one after the other, with all templates that the runs have read.
Before the first run there is no copy in the cache's directory. Between the runs anything is edited but
the copies, which may only be removed, and the runs write over none. -/
inductive Past (cache : Place) : List Manifest → FileTree → Prop where
  | start {files : FileTree} :
    files.Valid →
    (∀ entry, Cache.NamesCopy entry → files.data? (cache ++ [entry]) = none) →
    Past cache [] files
  | edited {read : List Manifest} {files files' : FileTree} :
    Past cache read files →
    files'.Valid →
    (∀ entry data, Cache.NamesCopy entry → files'.data? (cache ++ [entry]) = some data →
      files.data? (cache ++ [entry]) = some data) →
    Past cache read files'
  | ran {read : List Manifest} {files : FileTree} (config : Config) (flags : RunFlags) :
    Past cache read files →
    config.policy = .byContent →
    destination config.resolvedCache = cache →
    config.KeepsCopies flags files cache →
    Past cache (read ++ config.templatesRead files) (config.run flags files).files

lemma Past.valid (past : Past cache read files) : files.Valid := by
  induction past with
  | start valid => exact valid
  | edited _ valid => exact valid
  | ran config flags _ _ _ _ ih => exact run_valid ih flags

/-- What has the name of a copy is a copy of a template that a run has read. -/
lemma Past.exists_copy (past : Past cache read files) (names : Cache.NamesCopy entry)
    (held : files.data? (cache ++ [entry]) = some data) : Cache.IsCopy read entry data := by
  induction past generalizing data with
  | start _ none =>
    rw [none entry names] at held
    cases held
  | edited _ _ removed ih => exact ih (removed entry data names held)
  | ran config flags _ _ cached keeps ih =>
    exact isCopy_of_pristineAll cached (fun _ => ih) (keeps entry data names held)

/-- The cache holds of the templates that are read only what they are, unless different ones have the
same digits. -/
lemma Past.faithful (past : Past cache read files) (policy : config.policy = .byContent)
    (cached : destination config.resolvedCache = cache)
    (apart : ∀ template ∈ read ++ config.templatesRead files, ∀ other ∈ config.templatesRead files,
      Cache.contentHash template.raw = Cache.contentHash other.raw → template.raw = other.raw) :
    config.cache.Faithful files (config.templatesRead files) := by
  have byContent : config.cache.policy = .byContent := policy
  have named : ∀ {document : Manifest} {path : FilePath}, Cache.covers document = true →
      path ∈ config.cache.entry? document.name document.raw →
      ∃ entry, Cache.EntryName document.name document.raw .byContent entry ∧
        destination path = cache ++ [entry] := by
    intro document path covered is
    obtain ⟨entry, named, there⟩ :=
      Cache.exists_entryName is fun _ => Cache.name_ne_of_covers covered
    rw [byContent] at named
    exact ⟨entry, named, there.trans (congrArg (· ++ [entry]) cached)⟩
  refine ⟨fun document mem covered path is data held => ?_,
    fun document mem covered path is other mem' covered' path' is' same => ?_⟩
  · obtain ⟨entry, name, there⟩ := named covered is
    rw [there] at held
    obtain ⟨copy, member, covered', rfl, _, name'⟩ := past.exists_copy ⟨document, _, covered, name⟩ held
    exact apart copy (List.mem_append_left _ member) document mem (name.contentHash_eq covered' name')
  · obtain ⟨entry, name, there⟩ := named covered is
    obtain ⟨entry', name', there'⟩ := named covered' is'
    rw [there, there'] at same
    obtain rfl := List.singleton_inj.mp (List.append_cancel_left same)
    exact apart document (List.mem_append_right _ mem) other mem' (name'.contentHash_eq covered name)

/-! ## Writing beside a cache -/

/-- The paths of the files that a run without a cache writes. -/
inductive Writes (config : Config) (files : FileTree) : FilePath → Prop where
  | intro {chart : Chart} {values : ValuesTree} {directory : FilePath} {documents : List Manifest}
      {document : Manifest} :
    Extracts config files chart values →
    config.delivery chart (config.extractor.run chart.templates values) files =
      .ok (directory, documents) →
    document ∈ documents →
    Writes config files (directory.join ⟨document.name⟩)

/-- That nothing that a run makes for its cache is in the way of what it writes, nor makes the directory
that it writes to the root. -/
structure Unhindered (config : Config) (files : FileTree) : Prop where
  output : (config.lookedUp files).sameDirectory config.resolvedOutput config.root =
    files.sameDirectory config.resolvedOutput config.root
  clear : ∀ path, config.Writes files path → files.Clear (config.lookedUp files) path

/-- What is written by a run leads below the directory that it is written to. -/
lemma leads_of_mem_delivery {notes : List Note} {templates : List Manifest} {directory : FilePath}
    {documents : List Manifest} {document : Manifest} (valid : files.Valid)
    (loaded : Chart.load (config.selection files) files = (notes, .ok chart))
    (names : templates.map (·.name) = chart.templates.map (·.name))
    (delivered : config.delivery chart (config.extractor.run templates values) files' =
      .ok (directory, documents)) (mem : document ∈ documents) :
    ∃ rest, Chart.Leads document.name rest := by
  refine Chart.leads_of_mem_outgoing ?_ ?_ valid loaded (mem_outgoing_of_delivery delivered mem)
  · rw [Extractor.run_names, names]
  · rw [Extractor.run_valuesDocument]
    rfl

/-- An outcome is written and reported alike beside a cache that is not in the way. -/
lemma finish_concur (flags : RunFlags) (precedes : files.Precedes files') (root : chart.root = config.root)
    (output : files'.sameDirectory config.resolvedOutput config.root =
      files.sameDirectory config.resolvedOutput config.root)
    (clear : ∀ directory documents, config.delivery chart outcome files = .ok (directory, documents) →
      ∀ document ∈ documents, (∃ rest, Chart.Leads document.name rest) ∧
        files.Clear files' (directory.join ⟨document.name⟩)) (notes notes' : List Note) :
    let result := config.finish flags chart outcome notes' files'
    let plain := config.uncached.finish flags chart outcome notes files
    result.outcome = plain.outcome ∧ result.reported = plain.reported ∧ result.summary = plain.summary ∧
      FileTree.Concur files files' plain.files result.files := by
  have sameDelivery : config.delivery chart outcome files' = config.delivery chart outcome files := by
    rw [delivery, delivery, root, output]
  rw [finish, finish, sameDelivery, show config.uncached.delivery = config.delivery from rfl]
  cases delivered : config.delivery chart outcome files with
  | error fault => exact ⟨rfl, rfl, rfl, .refl _ _⟩
  | ok delivery =>
    obtain ⟨directory, documents⟩ := delivery
    obtain ⟨count, concur⟩ := Chart.save_concur precedes
      (fun document mem => (clear directory documents delivered document mem).1)
      (fun document mem => (clear directory documents delivered document mem).2)
    dsimp only
    rw [count]
    cases (Chart.save directory documents files).count with
    | error fault => exact ⟨rfl, rfl, rfl, concur⟩
    | ok written => exact ⟨rfl, rfl, rfl, concur⟩

/-! ## In place -/

/-- A run in place writes over no copies. -/
lemma keepsCopies_of_inPlace (valid : files.Valid) (inPlace : config.outputDirectory = none)
    (flags : RunFlags) (cache : Place) : config.KeepsCopies flags files cache := by
  intro entry data names held
  rcases run_cases inPlace flags files with ⟨same, -⟩ | ⟨notes, chart, loaded, stages⟩
  · rw [same] at held
    exact (Cache.pristineAll_precedes _ _ _).grows.data? held
  rw [lookedUp_of_load loaded]
  rcases stages with ⟨same, -⟩ | ⟨values, -, same, -⟩
  · exact same ▸ held
  · rw [same, save_copy valid loaded names.dotless] at held
    exact held

/-- In place, what is made for a cache is in the way of nothing but the values, if a directory is made
there. -/
lemma unhindered_of_inPlace (valid : files.Valid) (founded : files.Founded)
    (inPlace : config.outputDirectory = none)
    (values : (config.lookedUp files).at? (destination config.root ++ [valuesName]) =
      files.at? (destination config.root ++ [valuesName])) : config.Unhindered files := by
  have grows : files.Grows (config.lookedUp files) := (Cache.pristineAll_precedes _ _ _).grows
  refine ⟨?_, fun path writes => ?_⟩
  · rw [resolvedOutput, inPlace, Option.getD_none, FileTree.sameDirectory_self,
      FileTree.sameDirectory_self]
  cases writes with
  | @intro chart seeds directory documents document extracts delivered mem =>
  obtain ⟨notes, loaded⟩ := extracts.loaded
  rw [delivery_inPlace inPlace (Chart.root_eq_of_load loaded)] at delivered
  obtain ⟨rfl, rfl⟩ := Prod.mk.inj (Except.ok.inj delivered)
  obtain ⟨root, directory⟩ := Chart.exists_directory_of_load loaded
  rcases List.mem_append.mp mem with changed | last
  · -- a template is there, and so is all that its name leads through
    have names := Extractor.run_names config.extractor chart.templates seeds
    obtain ⟨-, template, rest, stands, name⟩ :=
      Chart.exists_stands_of_names valid loaded names (List.mem_filter.mp changed).1
    rw [← name, stands.name]
    refine FileTree.clear_join grows directory stands.named stands.below fun upper lower whole _ => ?_
    have there := FileTree.data?_eq_some_iff.mp stands.data
    rw [whole] at there
    obtain ⟨node, here⟩ := founded.exists_node valid there
    exact grows.at?_eq here
  · have name : document.name = Place.display [valuesName] := by
      rw [List.mem_singleton.mp last, Extractor.run_valuesDocument]
      rfl
    rw [name]
    refine FileTree.clear_join grows directory Chart.leads_valuesName.named
      Chart.leads_valuesName.below fun upper lower whole some => ?_
    obtain ⟨none, -⟩ | ⟨rest, rfl, nil⟩ := List.cons_eq_append_iff.mp whole
    · exact absurd none some
    · obtain ⟨rfl, rfl⟩ := List.append_eq_nil_iff.mp nil.symm
      exact values

/-! ## With a cache and without -/

/-- A run whose copies go by content comes to the same outcome, says the same, and leaves the same files
outside of the cache as a run without a cache, whatever has been run and edited before, unless something
that is made for the cache is in the way of what is written, or different templates have the same digits.
-/
theorem run_transparent (flags : RunFlags) (past : Past cache read files)
    (policy : config.policy = .byContent) (cached : destination config.resolvedCache = cache)
    (apart : ∀ template ∈ read ++ config.templatesRead files, ∀ other ∈ config.templatesRead files,
      Cache.contentHash template.raw = Cache.contentHash other.raw → template.raw = other.raw)
    (unhindered : config.Unhindered files) :
    let result := config.run flags files
    let plain := config.uncached.run flags files
    result.outcome = plain.outcome ∧ result.reported = plain.reported ∧ result.summary = plain.summary ∧
      ∀ place, ¬ cache <+: place → result.files.data? place = plain.files.data? place := by
  have valid := past.valid
  have faithful := past.faithful policy cached apart
  have outside : ∀ chart place, ¬ cache <+: place →
      (config.pristine chart files).files.data? place = files.data? place :=
    fun _ _ outside => Cache.pristineAll_outside (cached ▸ outside)
  dsimp only
  by_cases ruled : config.rules = []
  · have plain : config.uncached.run flags files = .stopped files [] .noRules :=
      run_of_unruled flags files ruled
    rw [run_of_unruled flags files ruled, plain]
    exact ⟨rfl, rfl, rfl, fun _ _ => rfl⟩
  obtain ⟨notes, loaded⟩ : ∃ notes, Chart.load (config.selection files) files =
      (notes, (Chart.load (config.selection files) files).2) := ⟨_, rfl⟩
  generalize (Chart.load (config.selection files) files).2 = loading at loaded
  cases loading with
  | error fault =>
    have plain : config.uncached.run flags files = .stopped files notes fault :=
      run_of_unloaded flags ruled loaded
    rw [run_of_unloaded flags ruled loaded, plain]
    exact ⟨rfl, rfl, rfl, fun _ _ => rfl⟩
  | ok chart =>
  have given : (config.pristine chart files).templates = chart.templates := by
    rw [templatesRead_of_load loaded] at faithful
    exact faithful.pristineAll fun _ mem _ => mem
  cases based : chart.baseValues config.mergeValues with
  | error fault =>
    obtain ⟨notes, stopped⟩ := run_of_unbased flags ruled loaded based
    obtain ⟨notes', plain⟩ := @run_of_unbased config.uncached files _ chart fault flags ruled loaded
      based
    rw [stopped, plain, uncached_pristine]
    exact ⟨rfl, rfl, rfl, fun place away => outside chart place away⟩
  | ok values =>
  have extracts : Extracts config files chart values := ⟨ruled, ⟨_, loaded⟩, based⟩
  obtain ⟨notes, run⟩ := run_of_extracts flags extracts
  obtain ⟨notes', run'⟩ := run_of_extracts flags extracts.uncached
  have outcome : config.extracted chart values files = config.extractor.run chart.templates values := by
    rw [extracted, given]
  have outcome' : config.uncached.extracted chart values files =
      config.extractor.run chart.templates values := by
    rw [extracted, uncached_pristine]
    rfl
  rw [run, run', outcome, outcome', uncached_pristine]
  have looked := lookedUp_of_load loaded
  obtain ⟨same, said, told, concur⟩ := finish_concur flags
    (Cache.pristineAll_precedes config.cache chart.templates files) (Chart.root_eq_of_load loaded)
    (looked ▸ unhindered.output) (fun directory documents delivered document mem =>
      ⟨leads_of_mem_delivery valid loaded rfl delivered mem,
        looked ▸ unhindered.clear _ (.intro extracts delivered mem)⟩) notes' notes
  exact ⟨same, said, told, fun place away => concur.files place (outside chart place away)⟩

/-- A run over the edited chart, with a copy of what the template was before, comes to the same as one
without a cache. -/
theorem run_transparent_edited :
    Past [".helm-dump"] (small.templatesRead single) singleEdited ∧ small.Unhindered singleEdited ∧
      (∃ outcome, (small.run ⟨false, .off⟩ singleEdited).outcome = .ok outcome) ∧
      (small.run ⟨false, .off⟩ singleEdited).outcome =
        (small.uncached.run ⟨false, .off⟩ singleEdited).outcome ∧
      ∀ place, ¬ [".helm-dump"] <+: place →
        (small.run ⟨false, .off⟩ singleEdited).files.data? place =
          (small.uncached.run ⟨false, .off⟩ singleEdited).files.data? place := by
  have valid : single.Valid := ⟨by decide +kernel, by decide +kernel, by decide +kernel⟩
  have ran : Past [".helm-dump"] (small.templatesRead single) singleMoved := by
    rw [← run_single.1]
    exact .ran small ⟨false, .off⟩ (.start valid fun _ _ => rfl) rfl (by decide +kernel)
      (keepsCopies_of_inPlace valid rfl _ _)
  have free : singleMoved.at? ["templates", "a.yaml"] ≠ some .directory := by decide +kernel
  have past : Past [".helm-dump"] (small.templatesRead single) singleEdited := by
    refine .edited ran (ran.valid.put free (by decide +kernel)) fun entry data _ held => ?_
    rw [singleEdited, FileTree.put_file_data? free, if_neg (by simp)] at held
    exact held
  have there : singleEdited.at? ["values.yaml"] = some (.file (Text.bytes "k: '1'\n")) := by
    decide +kernel
  have unhindered : small.Unhindered singleEdited :=
    unhindered_of_inPlace past.valid (by decide +kernel) rfl
      (((Cache.pristineAll_precedes _ _ _).grows _ _ there).trans there.symm)
  obtain ⟨_, loaded⟩ := load_single
  obtain ⟨_, loaded'⟩ := load_singleEdited
  have read : small.templatesRead single = [⟨"templates/a.yaml", fieldText "1"⟩] :=
    (templatesRead_of_load loaded).trans (by decide +kernel)
  have read' : small.templatesRead singleEdited = [otherTemplate] :=
    (templatesRead_of_load loaded').trans (by decide +kernel)
  obtain ⟨outcome, done⟩ := run_singleEdited
  obtain ⟨same, -, -, files⟩ := run_transparent ⟨false, .off⟩ past rfl (by decide +kernel) (by
    rw [read, read']
    decide +kernel) unhindered
  exact ⟨past, unhindered, ⟨outcome, done⟩, same, files⟩

/-- A configuration whose cache is where the values are to stand. -/
def blocked : Config := { small with cacheDirectory := ⟨"values.yaml"⟩ }

lemma excluded_blocked :
    (Glob.readAll (blocked.selection single).exclusions).toOption.isSome = true := by
  decide +kernel

/-- A run whose cache is where the values are to stand fails to write them, and does not without the
cache. -/
theorem run_blocked :
    Past (destination blocked.resolvedCache) [] single ∧ blocked.policy = .byContent ∧
      (∀ template ∈ blocked.templatesRead single, ∀ other ∈ blocked.templatesRead single,
        Cache.contentHash template.raw = Cache.contentHash other.raw → template.raw = other.raw) ∧
      (∃ fault, (blocked.run ⟨false, .off⟩ single).outcome = .error fault) ∧
      ∃ outcome, (blocked.uncached.run ⟨false, .off⟩ single).outcome = .ok outcome := by
  have valid : single.Valid := ⟨by decide +kernel, by decide +kernel, by decide +kernel⟩
  have loaded : ∃ notes, Chart.load (blocked.selection single) single =
      (notes, .ok ⟨⟨"."⟩, [description, ⟨"templates/a.yaml", fieldText "1"⟩]⟩) :=
    Chart.load_of_perm (eq_ok_get small_included) (eq_ok_get excluded_blocked) (by decide +kernel)
      (by decide +kernel) (by decide +kernel) (by decide +kernel)
  obtain ⟨notes, loaded⟩ := loaded
  have read : blocked.templatesRead single = [⟨"templates/a.yaml", fieldText "1"⟩] :=
    (templatesRead_of_load loaded).trans (by decide +kernel)
  have apart : ∀ template ∈ blocked.templatesRead single, ∀ other ∈ blocked.templatesRead single,
      Cache.contentHash template.raw = Cache.contentHash other.raw → template.raw = other.raw := by
    rw [read]
    decide +kernel
  generalize here : (⟨⟨"."⟩, [description, ⟨"templates/a.yaml", fieldText "1"⟩]⟩ : Chart) = chart
    at loaded
  have extracts : Extracts blocked single chart .empty := ⟨by decide, ⟨_, loaded⟩, by rw [← here]; rfl⟩
  have rewritten : written chart (blocked.extractor.run [⟨"templates/a.yaml", fieldText "1"⟩] .empty) =
      [⟨"templates/a.yaml", fieldText reference⟩, ⟨"values.yaml", Text.bytes "k: '1'\n"⟩] := by
    obtain ⟨documents, document, -⟩ := extracted_single
    rw [written, show blocked.extractor = small.extractor from rfl, documents, document, ← here]
    decide +kernel
  refine ⟨.start valid fun _ _ => rfl, rfl, apart, ?_, ?_⟩
  · have stored : (blocked.pristine chart single).files =
        ⟨[(["values.yaml", "templates_a_yaml-5849634d82f39ef7"], .file (fieldText "1")),
          (["values.yaml"], .directory)] ++ single.nodes⟩ := by
      rw [← here]
      exact eq_of_nodes_eq (by decide +kernel)
    have given : (blocked.pristine chart single).templates = [⟨"templates/a.yaml", fieldText "1"⟩] := by
      rw [← here]
      decide +kernel
    have delivered : blocked.delivery chart (blocked.extracted chart .empty single)
        (blocked.pristine chart single).files =
          .ok (blocked.root, written chart (blocked.extracted chart .empty single)) :=
      delivery_inPlace rfl (Chart.root_eq_of_load loaded) _ _
    cases saved : (Chart.save blocked.root (written chart (blocked.extracted chart .empty single))
        (blocked.pristine chart single).files).count with
    | error fault => exact ⟨fault, run_of_unsaved _ extracts delivered saved⟩
    | ok count =>
      have unsaved : (Chart.save blocked.root (written chart (blocked.extracted chart .empty single))
          (blocked.pristine chart single).files).count.toOption = none := by
        rw [extracted, given, rewritten, stored]
        decide +kernel
      rw [saved] at unsaved
      cases unsaved
  · have given : (blocked.uncached.pristine chart single) = ⟨single, [], chart.templates⟩ :=
      uncached_pristine _ _ _
    have templates : chart.templates = [⟨"templates/a.yaml", fieldText "1"⟩] := by
      rw [← here]
      decide +kernel
    have delivered : blocked.uncached.delivery chart (blocked.uncached.extracted chart .empty single)
        (blocked.uncached.pristine chart single).files =
          .ok (blocked.root, written chart (blocked.uncached.extracted chart .empty single)) :=
      delivery_inPlace rfl (Chart.root_eq_of_load loaded) _ _
    obtain ⟨-, done⟩ := run_of_delivery ⟨false, .off⟩ extracts.uncached delivered
    refine ⟨_, done rfl ?_⟩
    rw [extracted, given, templates, show blocked.uncached.extractor = blocked.extractor from rfl,
      rewritten]
    decide +kernel

end Config

end ChartLift
