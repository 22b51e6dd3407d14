import ChartLift.Proofs.Chart.Files
import ChartLift.Proofs.Files.Way

/-!
# Saving beside other files

Documents whose paths are clear of what a larger tree has more are saved alike to both trees, which go on
to concur where they did (`Chart.save_concur`).
-/

namespace ChartLift

open FileTree (destination)

namespace Chart

variable {directory : FilePath} {file : Manifest} {documents : List Manifest} {rest : Place}
  {tree tree' : FileTree}

/-- A path to what a name leads to ends with a name. -/
lemma Leads.exists_endsWith (leads : Leads file.name rest) (directory : FilePath) :
    ∃ before last, (directory.join ⟨file.name⟩).EndsWith before last := by
  obtain ⟨above, last, rfl⟩ := List.eq_nil_or_concat' rest |>.resolve_left leads.below
  have isName : Place.IsName last := leads.named last (by simp)
  -- the name ends with its last part, at its beginning or behind a slash
  obtain ⟨before, name, slash⟩ : ∃ before, file.name.toList = before ++ last.toList ∧
      (before = [] ∨ before.getLast? = some '/') := by
    rw [leads.display]
    obtain ⟨-, alone⟩ | ⟨before, behind⟩ := Place.exists_toList_display_concat above last
    · exact ⟨[], by simpa using alone, .inl rfl⟩
    · exact ⟨before ++ ['/'], by simpa using behind, .inr (by simp)⟩
  have inside : FilePath.isAbsolute ⟨file.name⟩ = false := by
    rw [leads.display]
    exact FilePath.isAbsolute_display leads.named
  -- and so does the path, whatever it begins with
  obtain ⟨beginning, text, slash'⟩ : ∃ beginning : List Char,
      (directory.join ⟨file.name⟩).text.toList = beginning ++ file.name.toList ∧
        (beginning = [] ∨ beginning.getLast? = some '/') := by
    rw [FilePath.join, if_neg (by simp [inside])]
    split
    · rename_i h
      refine ⟨directory.text.toList, by simp, ?_⟩
      simpa using h
    · exact ⟨directory.text.toList ++ ['/'], by simp, .inr (by simp)⟩
  refine ⟨beginning ++ before, last, by rw [text, name, List.append_assoc], isName, ?_⟩
  rcases slash with rfl | slash
  · simpa using slash'
  · exact .inr (by rw [List.getLast?_append, slash]; rfl)

/-- A document is saved alike to a larger tree, of which its path is clear. -/
lemma saveFile_concur (precedes : tree.Precedes tree') (leads : Leads file.name rest)
    (clear : tree.Clear tree' (directory.join ⟨file.name⟩)) :
    ∃ after after' result, saveFile directory file tree = (after, result) ∧
      saveFile directory file tree' = (after', result) ∧
      after.Precedes after' ∧ FileTree.Concur tree tree' after after' := by
  obtain ⟨before, last, ends⟩ := leads.exists_endsWith directory
  have above : ∀ place ∈ FileTree.along (FileTree.start (directory.join ⟨file.name⟩).parent)
      (directory.join ⟨file.name⟩).parent.parts, tree'.data? place = tree.data? place :=
    fun place mem => clear.way place (FileTree.mem_way_of_parent ends (List.mem_cons_of_mem _ mem))
  delta saveFile
  dsimp only
  rw [FileTree.makeDirectories, FileTree.makeDirectories]
  rcases precedes.makeAlong above with
    ⟨fault, failed, failed'⟩ | ⟨middle, middle', made, made', still, concur⟩
  · rw [failed, failed']
    exact ⟨tree, tree', _, rfl, rfl, precedes, .refl _ _⟩
  · rw [made, made']
    dsimp only
    have followed := FileTree.resolve_of_parent ends
      (fun place mem => FileTree.directory_of_makeDirectories made mem)
      (fun place mem => FileTree.directory_of_makeDirectories made' mem)
    rcases @FileTree.Precedes.write _ _ _ file.raw still followed (clear.concur concur).ends with
      ⟨fault, failed, failed'⟩ | ⟨after, after', wrote, wrote', precedes, concur'⟩
    · rw [failed, failed']
      exact ⟨middle, middle', _, rfl, rfl, still, concur⟩
    · rw [wrote, wrote']
      exact ⟨after, after', _, rfl, rfl, precedes, concur.trans concur'⟩

/-- Documents are saved alike to a larger tree, of which their paths are clear. -/
lemma save_concur (precedes : tree.Precedes tree')
    (lead : ∀ document ∈ documents, ∃ rest, Leads document.name rest)
    (clear : ∀ document ∈ documents, tree.Clear tree' (directory.join ⟨document.name⟩)) :
    (save directory documents tree').count = (save directory documents tree).count ∧
      FileTree.Concur tree tree' (save directory documents tree).files
        (save directory documents tree').files := by
  induction documents generalizing tree tree' with
  | nil => exact ⟨rfl, .refl _ _⟩
  | cons file rest ih =>
    obtain ⟨⟨_, leads⟩, lead⟩ := List.forall_mem_cons.mp lead
    obtain ⟨here, clear⟩ := List.forall_mem_cons.mp clear
    obtain ⟨middle, middle', result, saved, saved', precedes, concur⟩ :=
      saveFile_concur precedes leads here
    rw [save_cons, save_cons, saved, saved']
    cases result with
    | error fault => exact ⟨rfl, concur⟩
    | ok path =>
      obtain ⟨count, concur'⟩ :=
        ih precedes lead fun document mem => (clear document mem).concur concur
      dsimp only
      exact ⟨by rw [count], concur.trans concur'⟩

end Chart

end ChartLift
