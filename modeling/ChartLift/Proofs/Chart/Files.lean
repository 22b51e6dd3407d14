import ChartLift.Chart.Saving
import ChartLift.Proofs.Files.Tree
import Mathlib.Data.List.Nodup
import Mathlib.Data.String.Basic

/-!
# Charts among files

A chart that has been loaded consists of the files below its root that its selection takes
(`mem_files_iff_of_load`), each of them where its name leads from the root (`Stands.destination`).
Saving documents changes no other files than theirs (`save_data?`), and where it is done with all of
them, they are there (`save_written`).
-/

namespace ChartLift

open FileTree (destination)

/-- Files of one name with the same bytes are one. -/
lemma Manifest.eq_of_raw_eq {file file' : Manifest} (name : file.name = file'.name)
    (raw : file.raw = file'.raw) : file = file' := by
  obtain ⟨name, raw⟩ := file
  obtain ⟨name', raw'⟩ := file'
  congr

/-- That the files of a name are read. -/
def Selection.Selects (selection : Selection) (name : String) : Prop :=
  ∃ included excluded, Glob.readAll selection.included = .ok included ∧
    Glob.readAll selection.exclusions = .ok excluded ∧
    Glob.anyMatch included name = true ∧ Glob.anyMatch excluded name = false

namespace Chart

/-! ## Loading -/

/-- A name that leads below the directory that it is looked up from, with the place it stands for. -/
structure Leads (name : String) (rest : Place) : Prop where
  below : rest ≠ []
  named : ∀ name ∈ rest, Place.IsName name
  display : name = rest.display

/-- A file below a directory, with the place that its name stands for. -/
structure Stands (files : FileTree) (root : FilePath) (file : Manifest) (rest : Place) : Prop where
  below : rest ≠ []
  named : ∀ name ∈ rest, Place.IsName name
  name : file.name = rest.display
  data : files.data? (destination root ++ rest) = some file.raw

section Stands

variable {files files' : FileTree} {root : FilePath} {file file' : Manifest} {rest rest' : Place}

lemma Leads.destination (leads : Leads file.name rest) :
    destination (root.join ⟨file.name⟩) = FileTree.destination root ++ rest := by
  rw [leads.display, FileTree.destination_join_display root leads.named]

lemma Stands.leads (stands : Stands files root file rest) : Leads file.name rest :=
  ⟨stands.below, stands.named, stands.name⟩

lemma Stands.destination (stands : Stands files root file rest) :
    destination (root.join ⟨file.name⟩) = FileTree.destination root ++ rest :=
  stands.leads.destination

lemma Stands.same_place (stands : Stands files root file rest)
    (stands' : Stands files' root file' rest') (same : file.name = file'.name) : rest = rest' :=
  FilePath.eq_of_display_eq stands.named stands'.named
    (by rw [← stands.name, same, stands'.name])

/-- There is one file of a name. -/
lemma Stands.unique (stands : Stands files root file rest)
    (stands' : Stands files root file' rest') (same : file.name = file'.name) : file = file' := by
  have raws := stands.data
  rw [stands.same_place stands' same, stands'.data] at raws
  exact Manifest.eq_of_raw_eq same (Option.some.inj raws).symm

end Stands

section Load

variable {selection : Selection} {files : FileTree} {notes : List Note} {chart : Chart}
  {file file' : Manifest}

/-- A chart that is loaded has been found in a directory, by patterns that could be read. -/
lemma eq_of_load (h : load selection files = (notes, .ok chart)) :
    ∃ included excluded, Glob.readAll selection.included = .ok included ∧
      Glob.readAll selection.exclusions = .ok excluded ∧
      files.at? (destination selection.root) = some .directory ∧
      chart = ⟨selection.root,
        Selection.filesIn files (destination selection.root) included excluded⟩ := by
  rw [load] at h
  split at h
  · cases h
  rename_i root directory
  split at h
  · cases h
  rename_i included readIncluded
  split at h
  · cases h
  rename_i excluded readExcluded
  dsimp only at h
  split at h
  · obtain ⟨found, isDirectory⟩ := Option.filter_eq_some_iff.mp directory
    obtain rfl := FileTree.eq_destination_of_existing found
    cases h
    exact ⟨included, excluded, readIncluded, readExcluded, eq_of_beq isDirectory, rfl⟩
  · cases h

/-- The files of a chart are those below its root that its selection takes. -/
lemma mem_files_iff_of_load (valid : files.Valid)
    (h : load selection files = (notes, .ok chart)) (file : Manifest) :
    file ∈ chart.files ↔
      selection.Selects file.name ∧ ∃ rest, Stands files selection.root file rest := by
  obtain ⟨included, excluded, readIncluded, readExcluded, directory, rfl⟩ := eq_of_load h
  -- the root itself is a directory, so no file stands there under an empty name
  have noFile : files.data? (destination selection.root) = none := by
    rw [FileTree.data?, directory]
  simp only [Selection.filesIn, List.mem_mergeSort, List.mem_filter, List.mem_map,
    Bool.and_eq_true, Bool.not_eq_true', Prod.exists, valid.mem_filesBelow_iff]
  constructor
  · rintro ⟨⟨rest, data, ⟨there, named⟩, rfl⟩, taken, kept⟩
    refine ⟨⟨included, excluded, readIncluded, readExcluded, taken, kept⟩, rest, ?_, named, rfl,
      there⟩
    rintro rfl
    rw [List.append_nil, noFile] at there
    cases there
  · rintro ⟨⟨_, _, readIncluded', readExcluded', taken, kept⟩, rest, stands⟩
    cases readIncluded.symm.trans readIncluded'
    cases readExcluded.symm.trans readExcluded'
    refine ⟨⟨rest, file.raw, ⟨stands.data, stands.named⟩, ?_⟩, taken, kept⟩
    rw [← stands.name]

lemma exists_directory_of_load (h : load selection files = (notes, .ok chart)) :
    ∃ place, files.directory? selection.root = some place := by
  rw [load] at h
  split at h
  · cases h
  · rename_i there
    exact ⟨_, there⟩

lemma root_eq_of_load (h : load selection files = (notes, .ok chart)) :
    chart.root = selection.root := by
  obtain ⟨_, _, -, -, -, rfl⟩ := eq_of_load h
  rfl

/-- A chart is loaded with the files that are found, by ascending name. -/
lemma load_of_perm {included excluded : List Glob} {found : List Manifest}
    (readIncluded : Glob.readAll selection.included = .ok included)
    (readExcluded : Glob.readAll selection.exclusions = .ok excluded)
    (directory : files.directory? selection.root = some (destination selection.root))
    (perm : (((files.filesBelow (destination selection.root)).map fun (place, data) =>
      (⟨place.display, data⟩ : Manifest)).filter fun file =>
        Glob.anyMatch included file.name && !Glob.anyMatch excluded file.name).Perm found)
    (ascending : found.Pairwise (·.name < ·.name))
    (isChart : found.any (·.name == RunFault.chartFile) = true) :
    ∃ notes, load selection files = (notes, .ok ⟨selection.root, found⟩) := by
  have filesIn : Selection.filesIn files (destination selection.root) included excluded = found := by
    have sorted : (Selection.filesIn files (destination selection.root) included excluded).Pairwise
        fun a b => decide (a.name ≤ b.name) = true := by
      apply List.pairwise_mergeSort
      · intro a b c ab bc
        simp only [decide_eq_true_eq] at ab bc ⊢
        exact le_trans ab bc
      · intro a b
        simpa using le_total a.name b.name
    have same := (List.mergeSort_perm _ fun a b : Manifest => decide (a.name ≤ b.name)).trans perm
    -- names are distinct, so there is one ascending order of the files
    have distinct : (found.map (·.name)).Nodup :=
      List.pairwise_map.mpr (ascending.imp fun less => less.ne)
    refine List.Perm.eq_of_pairwise (fun a b memA memB ab ba => ?_) sorted
      (ascending.imp fun less => decide_eq_true less.le) same
    exact List.inj_on_of_nodup_map distinct (same.mem_iff.mp memA) memB
      (le_antisymm (of_decide_eq_true ab) (of_decide_eq_true ba))
  rw [load, directory]
  dsimp only
  rw [readIncluded, readExcluded]
  dsimp only
  rw [filesIn, if_pos isChart]
  exact ⟨_, rfl⟩

lemma eq_of_mem_files (valid : files.Valid) (h : load selection files = (notes, .ok chart))
    (mem : file ∈ chart.files) (mem' : file' ∈ chart.files) (same : file.name = file'.name) :
    file = file' := by
  obtain ⟨-, rest, stands⟩ := (mem_files_iff_of_load valid h file).mp mem
  obtain ⟨-, rest', stands'⟩ := (mem_files_iff_of_load valid h file').mp mem'
  exact stands.unique stands' same

lemma file?_eq_of_mem (valid : files.Valid) (h : load selection files = (notes, .ok chart))
    (mem : file ∈ chart.files) : chart.file? file.name = some file := by
  cases found : chart.file? file.name with
  | none => simpa using List.find?_eq_none.mp found file mem
  | some other =>
    have name : other.name = file.name := by simpa using List.find?_some found
    rw [eq_of_mem_files valid h (List.mem_of_find?_eq_some found) mem name]

/-- The files of a chart have different names. -/
lemma nodup_names_of_load (valid : files.Valid) (h : load selection files = (notes, .ok chart)) :
    (chart.files.map (·.name)).Nodup := by
  have once : chart.files.Nodup := by
    obtain ⟨included, excluded, -, -, -, rfl⟩ := eq_of_load h
    refine (List.mergeSort_perm _ _).nodup_iff.mpr (List.Nodup.filter _ (List.Nodup.map_on ?_
      (valid.nodup_filesBelow _)))
    rintro ⟨rest, data⟩ mem ⟨rest', data'⟩ mem' same
    obtain ⟨name, rfl⟩ := Manifest.mk.inj same
    obtain rfl := FilePath.eq_of_display_eq (valid.mem_filesBelow_iff.mp mem).2
      (valid.mem_filesBelow_iff.mp mem').2 name
    rfl
  exact once.map_on fun _ mem _ mem' same => eq_of_mem_files valid h mem mem' same

/-- A document under the name of a template stands for a file that has been loaded. -/
lemma exists_stands_of_names (valid : files.Valid) (h : load selection files = (notes, .ok chart))
    {documents : List Manifest} (names : documents.map (·.name) = chart.templates.map (·.name))
    (mem : file ∈ documents) : isTemplate file.name = true ∧
      ∃ template rest, Stands files selection.root template rest ∧ template.name = file.name := by
  have named : file.name ∈ chart.templates.map (·.name) := names ▸ List.mem_map.mpr ⟨file, mem, rfl⟩
  obtain ⟨template, member, same⟩ := List.mem_map.mp named
  obtain ⟨loaded, isTemplate⟩ := List.mem_filter.mp member
  obtain ⟨-, rest, stands⟩ := (mem_files_iff_of_load valid h template).mp loaded
  exact ⟨same ▸ isTemplate, template, rest, stands, same⟩

end Load

/-! ## Saving -/

section Save

variable {directory : FilePath} {files : FileTree} {file : Manifest} {documents : List Manifest}

/-- What saving one file comes to: the file is the only one that has changed, or none has. -/
lemma saveFile_cases (directory : FilePath) (file : Manifest) (files : FileTree) :
    ∃ files', (files.Valid → files'.Valid) ∧
      ((∃ fault, saveFile directory file files = (files', .error fault) ∧
          ∀ place, files'.data? place = files.data? place) ∨
        ∃ path, saveFile directory file files = (files', .ok path) ∧
          ∀ place, files'.data? place =
            if place = destination (directory.join ⟨file.name⟩) then some file.raw
            else files.data? place) := by
  delta saveFile
  dsimp only
  split
  · exact ⟨files, id, .inl ⟨_, rfl, fun _ => rfl⟩⟩
  · rename_i middle made
    split
    · exact ⟨middle, fun valid => valid.makeDirectories made,
        .inl ⟨_, rfl, FileTree.makeDirectories_data? made⟩⟩
    · rename_i files' written
      refine ⟨files', fun valid => (valid.makeDirectories made).write written, .inr ⟨_, rfl, ?_⟩⟩
      intro place
      rw [FileTree.write_data? written, FileTree.makeDirectories_data? made]

section

-- so that unfolding does not look into the files for what saving one comes to
attribute [local irreducible] saveFile

/-- Saving documents is saving the first one and, where that is done, the others. -/
lemma save_cons (directory : FilePath) (file : Manifest) (rest : List Manifest) (files : FileTree) :
    save directory (file :: rest) files =
      match saveFile directory file files with
      | (files, .error fault) => ⟨files, [], .error fault⟩
      | (files, .ok path) =>
        let saved := save directory rest files
        { saved with
          notes := ⟨.debug, topic, "wrote " ++ path.text⟩ :: saved.notes
          count := saved.count.map (· + 1) } :=
  rfl

end

lemma save_valid (valid : files.Valid) : (save directory documents files).files.Valid := by
  induction documents generalizing files with
  | nil => exact valid
  | cons file rest ih =>
    obtain ⟨middle, keeps, ⟨fault, saved, -⟩ | ⟨path, saved, -⟩⟩ :=
      saveFile_cases directory file files
    · rw [save_cons, saved]
      exact keeps valid
    · rw [save_cons, saved]
      exact ih (keeps valid)

/-- After saving, a file is as it was or a document that it has been overwritten with. -/
lemma save_data? (place : Place) :
    (save directory documents files).files.data? place = files.data? place ∨
      ∃ file ∈ documents, destination (directory.join ⟨file.name⟩) = place ∧
        (save directory documents files).files.data? place = some file.raw := by
  induction documents generalizing files with
  | nil => exact .inl rfl
  | cons file rest ih =>
    obtain ⟨middle, -, ⟨fault, saved, same⟩ | ⟨path, saved, changed⟩⟩ :=
      saveFile_cases directory file files
    · rw [save_cons, saved]
      exact .inl (same place)
    · rw [save_cons, saved]
      dsimp only
      rcases @ih middle with same | ⟨other, mem, leads, written⟩
      · rw [same, changed]
        split_ifs with leads
        · exact .inr ⟨file, List.mem_cons_self, leads.symm, rfl⟩
        · exact .inl rfl
      · exact .inr ⟨other, List.mem_cons_of_mem _ mem, leads, written⟩

/-- Where saving is done, each document is there, unless another one has been saved to its place. -/
lemma save_written {count : Nat} (done : (save directory documents files).count = .ok count)
    (mem : file ∈ documents) : ∃ other ∈ documents,
      destination (directory.join ⟨other.name⟩) = destination (directory.join ⟨file.name⟩) ∧
        (save directory documents files).files.data? (destination (directory.join ⟨file.name⟩)) =
          some other.raw := by
  induction documents generalizing files count with
  | nil => cases mem
  | cons first rest ih =>
    obtain ⟨middle, -, ⟨fault, saved, same⟩ | ⟨path, saved, changed⟩⟩ :=
      saveFile_cases directory first files
    · rw [save_cons, saved] at done
      cases done
    · rw [save_cons, saved] at done ⊢
      dsimp only at done ⊢
      obtain ⟨others, behind⟩ : ∃ n, (save directory rest middle).count = .ok n := by
        cases counted : (save directory rest middle).count with
        | error fault => rw [counted] at done; cases done
        | ok n => exact ⟨n, rfl⟩
      rcases List.mem_cons.mp mem with rfl | mem
      -- what is saved first may be overwritten by what follows
      · rcases @save_data? directory middle rest (destination (directory.join ⟨file.name⟩)) with
          same | ⟨other, member, leads, written⟩
        · exact ⟨file, List.mem_cons_self, rfl, by rw [same, changed, if_pos rfl]⟩
        · exact ⟨other, List.mem_cons_of_mem _ member, leads, written⟩
      · obtain ⟨other, member, leads, written⟩ := ih behind mem
        exact ⟨other, List.mem_cons_of_mem _ member, leads, written⟩

/-- Where saving is done, as many files have been written as there are documents. -/
lemma count_of_save {count : Nat} (done : (save directory documents files).count = .ok count) :
    count = documents.length := by
  induction documents generalizing files count with
  | nil => exact (Except.ok.inj done).symm
  | cons file rest ih =>
    obtain ⟨middle, -, ⟨fault, saved, -⟩ | ⟨path, saved, -⟩⟩ := saveFile_cases directory file files
    · rw [save_cons, saved] at done
      cases done
    · rw [save_cons, saved] at done
      dsimp only at done
      cases counted : (save directory rest middle).count with
      | error fault => rw [counted] at done; cases done
      | ok n =>
        rw [counted] at done
        rw [← Except.ok.inj done, ih counted, List.length_cons]

/-- Saving documents below a directory changes no file outside of it. -/
lemma save_outside (named : ∀ document ∈ documents, ∃ rest, Leads document.name rest) {place : Place}
    (outside : ¬ destination directory <+: place) :
    (save directory documents files).files.data? place = files.data? place := by
  rcases save_data? place with same | ⟨document, mem, there, -⟩
  · exact same
  · obtain ⟨rest, leads⟩ := named document mem
    exact absurd ⟨rest, leads.destination.symm.trans there⟩ outside

/-- Where documents of different names have been saved, each of them stands where its name leads. -/
lemma stands_of_save {count : Nat} (done : (save directory documents files).count = .ok count)
    (named : ∀ document ∈ documents, ∃ rest, Leads document.name rest)
    (once : (documents.map (·.name)).Nodup) (mem : file ∈ documents) {rest : Place}
    (leads : Leads file.name rest) :
    Stands (save directory documents files).files directory file rest := by
  obtain ⟨other, member, same, written⟩ := save_written done mem
  obtain ⟨rest', leads'⟩ := named other member
  rw [leads.destination] at same written
  rw [leads'.destination] at same
  have name : other.name = file.name := by
    rw [leads'.display, leads.display, List.append_cancel_left same]
  obtain rfl := List.inj_on_of_nodup_map once member mem name
  exact ⟨leads.below, leads.named, leads.display, written⟩

end Save

end Chart

end ChartLift
