import ChartLift.Proofs.Files.Path
import Mathlib.Data.List.Nodup

/-!
# What operations on files change

What each operation on a tree of files leaves in place: directories that are made change no file
(`makeDirectories_data?`), and a file that is written or created is the only one to change
(`write_data?`, `create_data?`). Making and creating let a tree `Grow`, and what a path reads it reads
in every larger tree (`Grows.read`). Trees stay `Valid` throughout: each place stands there once, inside
of the working directory or where a path outside leads. Of a valid tree, the files below a place are
those that are found there (`mem_filesBelow_iff`).
-/

namespace ChartLift.FileTree

open Text (Bytes)
open FilePath

variable {tree tree' : FileTree} {path : FilePath} {place other rest : Place} {node : FileNode}
  {data : Bytes} {parts : List String}

/-- The bytes of the file that stands at a place. -/
def data? (tree : FileTree) (place : Place) : Option Bytes :=
  match tree.at? place with
  | some (.file data) => some data
  | _ => none

lemma data?_eq_some_iff : tree.data? place = some data ↔ tree.at? place = some (.file data) := by
  rw [data?]
  rcases tree.at? place with _ | _ | _ <;> simp

/-- A tree of files as they can be: each place stands there once and has names that lead there. -/
structure Valid (tree : FileTree) : Prop where
  distinct : (tree.nodes.map Prod.fst).Nodup
  inside : ∀ entry ∈ tree.nodes, entry.1.all Place.isOutward = false
  named : ∀ entry ∈ tree.nodes, entry.1.Named

/-! ## Putting -/

/-- A place where no directory stands is not above all that can be put. -/
lemma inside_of_at?_ne (h : tree.at? place ≠ some .directory) :
    place.all Place.isOutward = false := by
  rw [at?] at h
  split at h
  · exact absurd rfl h
  · rename_i outside
    simpa using outside

/-- A valid tree stays valid when something is put at a place that a path can lead to. -/
lemma Valid.put (valid : tree.Valid) (free : tree.at? place ≠ some .directory)
    (named : place.Named) : (tree.put place node).Valid := by
  refine ⟨?_, List.forall_mem_cons.mpr ⟨inside_of_at?_ne free, ?_⟩,
    List.forall_mem_cons.mpr ⟨named, ?_⟩⟩
  · refine List.nodup_cons.mpr ⟨?_, valid.distinct.sublist (List.filter_sublist.map _)⟩
    intro mem
    obtain ⟨entry, kept, here⟩ := List.mem_map.mp mem
    simpa [here] using (List.mem_filter.mp kept).2
  · exact fun entry mem => valid.inside entry (List.mem_filter.mp mem).1
  · exact fun entry mem => valid.named entry (List.mem_filter.mp mem).1

/-- Where a file has been put its bytes are found, and all other files stay. -/
lemma put_file_data? (free : tree.at? place ≠ some .directory) (other : Place) :
    (tree.put place (.file data)).data? other =
      if other = place then some data else tree.data? other := by
  split_ifs with here
  · rw [here, data?_eq_some_iff]
    exact at?_put_self tree _ (inside_of_at?_ne free)
  · rw [data?, at?_put_of_ne tree _ here, data?]

/-- A directory that is put where nothing was changes no file. -/
lemma put_directory_data? (free : tree.at? place = none) (other : Place) :
    (tree.put place .directory).data? other = tree.data? other := by
  by_cases here : other = place
  · have unoccupied : tree.at? place ≠ some .directory := by simp [free]
    have inside := inside_of_at?_ne unoccupied
    rw [here, data?, data?, at?_put_self tree _ inside, free]
  · rw [data?, at?_put_of_ne tree _ here, data?]

/-! ## Reading -/

/-- The bytes that a path leads to are those at its destination. -/
lemma read_data? (h : tree.read path = .ok data) : tree.data? (destination path) = some data := by
  rw [read] at h
  split at h
  · cases h
  · rename_i resolved
    split at h
    · cases h
    · cases h
    · rename_i found
      cases h
      rw [data?_eq_some_iff, ← eq_destination resolved]
      exact found

/-! ## Making directories -/

/-- Directories that are made change no file and keep a tree valid. -/
lemma makeAlong_keeps (h : tree.makeAlong place parts = .ok tree')
    (proper : ∀ part ∈ parts, part ≠ "" ∧ '/' ∉ part.toList) (named : place.Named) :
    (tree.Valid → tree'.Valid) ∧ ∀ other, tree'.data? other = tree.data? other := by
  induction parts generalizing tree place with
  | nil =>
    cases h
    exact ⟨id, fun _ => rfl⟩
  | cons part rest ih =>
    obtain ⟨⟨nonempty, slashless⟩, others⟩ := List.forall_mem_cons.mp proper
    have next := named_step named nonempty slashless
    rw [makeAlong] at h
    split at h
    · exact ih h others next
    · split at h <;> cases h
    · -- a directory is made where nothing stands, so that it takes the place of no file
      rename_i free
      split at h
      · cases h
      · obtain ⟨valid, same⟩ := ih h others next
        have unoccupied : tree.at? (step place part) ≠ some .directory := by simp [free]
        exact ⟨fun start => valid (start.put unoccupied next),
          fun other => (same other).trans (put_directory_data? free other)⟩

lemma Valid.makeDirectories (valid : tree.Valid) (h : tree.makeDirectories path = .ok tree') :
    tree'.Valid :=
  (makeAlong_keeps h (fun _ mem => slashless_of_mem_parts mem) (named_start path)).1 valid

lemma makeDirectories_data? (h : tree.makeDirectories path = .ok tree') (other : Place) :
    tree'.data? other = tree.data? other :=
  (makeAlong_keeps h (fun _ mem => slashless_of_mem_parts mem) (named_start path)).2 other

/-! ## Writing -/

/-- Writing puts a file at the destination of its path, where no directory stands. -/
lemma write_eq (h : tree.write path data = .ok tree') :
    tree.at? (destination path) ≠ some .directory ∧
      tree' = tree.put (destination path) (.file data) := by
  rw [write] at h
  split at h
  · cases h
  · rename_i resolved
    obtain rfl := eq_destination resolved
    split at h
    · cases h
    · rename_i free
      exact ⟨free, (Except.ok.inj h).symm⟩

lemma Valid.write (valid : tree.Valid) (h : tree.write path data = .ok tree') : tree'.Valid := by
  obtain ⟨free, rfl⟩ := write_eq h
  exact valid.put free (named_destination path)

lemma write_data? (h : tree.write path data = .ok tree') (other : Place) :
    tree'.data? other = if other = destination path then some data else tree.data? other := by
  obtain ⟨free, rfl⟩ := write_eq h
  exact put_file_data? free other

/-- Creating puts a file at the destination of its path, where nothing stands. -/
lemma create_eq (h : tree.create path data = .ok tree') :
    tree.at? (destination path) = none ∧ tree' = tree.put (destination path) (.file data) := by
  rw [create] at h
  split at h
  · cases h
  · rename_i resolved
    obtain rfl := eq_destination resolved
    split at h
    · cases h
    · rename_i free
      exact ⟨free, (Except.ok.inj h).symm⟩

lemma Valid.create (valid : tree.Valid) (h : tree.create path data = .ok tree') :
    tree'.Valid := by
  obtain ⟨free, rfl⟩ := create_eq h
  exact valid.put (by simp [free]) (named_destination path)

lemma create_data? (h : tree.create path data = .ok tree') (other : Place) :
    tree'.data? other = if other = destination path then some data else tree.data? other := by
  obtain ⟨free, rfl⟩ := create_eq h
  exact put_file_data? (by simp [free]) other

/-! ## Growing -/

/-- That whatever stands somewhere in a tree stands there in another one too. -/
def Grows (tree tree' : FileTree) : Prop :=
  ∀ place node, tree.at? place = some node → tree'.at? place = some node

lemma Grows.refl (tree : FileTree) : tree.Grows tree := fun _ _ there => there

lemma Grows.trans {tree'' : FileTree} (first : tree.Grows tree') (then_ : tree'.Grows tree'') :
    tree.Grows tree'' :=
  fun place node there => then_ place node (first place node there)

lemma Grows.at?_eq (grows : tree.Grows tree') (there : tree.at? place = some node) :
    tree'.at? place = tree.at? place :=
  (grows _ _ there).trans there.symm

/-- A tree grows by what is put where nothing was. -/
lemma grows_put (free : tree.at? place = none) (node : FileNode) : tree.Grows (tree.put place node) := by
  intro other what there
  have ne : other ≠ place := by
    rintro rfl
    rw [free] at there
    cases there
  rw [at?_put_of_ne tree node ne, there]

lemma grows_of_makeAlong (h : tree.makeAlong place parts = .ok tree') : tree.Grows tree' := by
  induction parts generalizing tree place with
  | nil =>
    cases h
    exact Grows.refl _
  | cons part rest ih =>
    rw [makeAlong] at h
    split at h
    · exact ih h
    · split at h <;> cases h
    · rename_i free
      split at h
      · cases h
      · exact (grows_put free .directory).trans (ih h)

lemma grows_of_create (h : tree.create path data = .ok tree') : tree.Grows tree' := by
  obtain ⟨free, rfl⟩ := create_eq h
  exact grows_put free _

lemma Grows.data? (grows : tree.Grows tree') (there : tree.data? place = some data) :
    tree'.data? place = some data :=
  data?_eq_some_iff.mpr (grows _ _ (data?_eq_some_iff.mp there))

/-- What can be followed in a tree can be followed in a larger one. -/
lemma Grows.follow (grows : tree.Grows tree') (h : tree.follow place parts = .ok there) :
    tree'.follow place parts = .ok there := by
  induction parts generalizing place with
  | nil => exact h
  | cons part rest ih =>
    rw [FileTree.follow] at h
    split at h
    · cases h
    · cases h
    · rename_i directory
      rw [FileTree.follow, grows _ _ directory]
      split at h
      · cases h
      · rename_i short
        simp only [if_neg short]
        exact ih h

lemma Grows.resolve (grows : tree.Grows tree') (h : tree.resolve path = .ok place) :
    tree'.resolve path = .ok place := by
  rw [FileTree.resolve] at h ⊢
  split at h
  · cases h
  · rename_i written
    rw [if_neg written]
    exact grows.follow h

/-- A path reads in a larger tree what it reads in a tree. -/
lemma Grows.read (grows : tree.Grows tree') (h : tree.read path = .ok data) :
    tree'.read path = .ok data := by
  have found := read_data? h
  rw [FileTree.read] at h ⊢
  split at h
  · cases h
  · rename_i resolved
    obtain rfl := eq_destination resolved
    rw [grows.resolve resolved]
    dsimp only
    rw [grows _ _ (data?_eq_some_iff.mp found)]

/-- What has been created at the end of a path is read there. -/
lemma read_of_create (h : tree.create path data = .ok tree') : tree'.read path = .ok data := by
  obtain ⟨free, rfl⟩ := create_eq h
  have outside : tree.at? (destination path) ≠ some .directory := by simp [free]
  rw [create] at h
  split at h
  · cases h
  · rename_i resolved
    obtain rfl := eq_destination resolved
    rw [FileTree.read, (grows_put free _).resolve resolved]
    dsimp only
    rw [at?_put_self tree _ (inside_of_at?_ne outside)]

/-- A step that goes nowhere is made from a directory. -/
lemma directory_of_follow_here (h : tree.follow place (parts ++ ["."]) = .ok there) :
    tree.at? there = some .directory := by
  induction parts generalizing place with
  | nil =>
    rw [List.nil_append, FileTree.follow] at h
    split at h
    · cases h
    · cases h
    · rename_i directory
      split at h
      · cases h
      · obtain rfl : place = there := by simpa [FileTree.follow, step] using h
        exact directory
  | cons part rest ih =>
    rw [List.cons_append, FileTree.follow] at h
    split at h
    · cases h
    · cases h
    · split at h
      · cases h
      · exact ih h

/-- A path with a slash at its end reads no file. -/
lemma read_ne_ok_of_slash (ends : path.text.toList.getLast? = some '/') : tree.read path ≠ .ok data := by
  intro h
  rw [FileTree.read] at h
  split at h
  · cases h
  · rename_i resolved
    rw [FileTree.resolve] at resolved
    split at resolved
    · cases resolved
    · rw [partsOf, if_pos (by simpa using ends)] at resolved
      rw [directory_of_follow_here resolved] at h
      cases h

/-! ## Listing -/

/-- A valid tree has at a place what it has an entry for. -/
lemma Valid.at?_eq_some_iff (valid : tree.Valid) (inside : place.all Place.isOutward = false) :
    tree.at? place = some node ↔ (place, node) ∈ tree.nodes := by
  rw [at?, if_neg (by simp [inside])]
  have distinct := valid.distinct
  generalize tree.nodes = entries at distinct ⊢
  induction entries with
  | nil => simp
  | cons entry entries ih =>
    obtain ⟨there, what⟩ := entry
    obtain ⟨new, distinct⟩ := List.nodup_cons.mp distinct
    -- the first entry for the place is found, and it is the only one
    by_cases here : place = there
    · subst here
      have once : (place, node) ∉ entries := fun mem => new (List.mem_map.mpr ⟨_, mem, rfl⟩)
      simp [once, eq_comm]
    · have other : (place == there) = false := beq_eq_false_iff_ne.mpr here
      simp [List.lookup_cons, other, here, ih distinct]

/-- The files below a place of a valid tree are those that are found there. -/
lemma Valid.mem_filesBelow_iff (valid : tree.Valid) :
    (rest, data) ∈ tree.filesBelow place ↔
      tree.data? (place ++ rest) = some data ∧ ∀ name ∈ rest, Place.IsName name := by
  rw [filesBelow, List.mem_filterMap, data?_eq_some_iff]
  constructor
  · rintro ⟨⟨there, node⟩, mem, found⟩
    cases node with
    | directory => cases found
    | file bytes =>
      simp only [Option.ite_none_right_eq_some, Option.some.injEq, Prod.mk.injEq] at found
      obtain ⟨below, rfl, rfl⟩ := found
      obtain ⟨begins, inner⟩ := Bool.and_eq_true_iff.mp below
      obtain ⟨rest, rfl⟩ := List.isPrefixOf_iff_prefix.mp begins
      rw [List.drop_left] at inner ⊢
      refine ⟨(valid.at?_eq_some_iff (valid.inside _ mem)).mpr mem, fun name here => ?_⟩
      have onward : ∀ name ∈ rest, Place.isOutward name = false := by simpa using inner
      rcases valid.named _ mem name (List.mem_append_right _ here) with outward | isName
      · rw [onward name here] at outward
        cases outward
      · exact isName
  · rintro ⟨found, named⟩
    have unoccupied : tree.at? (place ++ rest) ≠ some .directory := by simp [found]
    have inside := inside_of_at?_ne unoccupied
    refine ⟨_, (valid.at?_eq_some_iff inside).mp found, ?_⟩
    have begins : place.isPrefixOf (place ++ rest) = true :=
      List.isPrefixOf_iff_prefix.mpr (List.prefix_append _ _)
    have inner : ∀ name ∈ rest, Place.isOutward name = false := by
      intro name mem
      have isName := named name mem
      have slash : name ≠ "/" := fun e => isName.slashless (by simp [e])
      simp [Place.isOutward, slash, isName.downward]
    simpa [begins] using inner

/-- No file of a valid tree is listed twice. -/
lemma Valid.nodup_filesBelow (valid : tree.Valid) (place : Place) : (tree.filesBelow place).Nodup := by
  refine List.Nodup.filterMap ?_ (List.Nodup.of_map _ valid.distinct)
  rintro ⟨there, node⟩ ⟨there', node'⟩ listed found found'
  -- what is listed tells where it stands and what it is
  have whole : ∀ {there : Place} {data}, listed ∈ (
      if place.isPrefixOf there && !(there.drop place.length).any Place.isOutward then
        some (there.drop place.length, data) else none) → there = place ++ listed.1 ∧ data = listed.2 := by
    intro there data found
    simp only [Option.mem_def, Option.ite_none_right_eq_some, Option.some.injEq] at found
    obtain ⟨below, rfl⟩ := found
    obtain ⟨rest, rfl⟩ := List.isPrefixOf_iff_prefix.mp (Bool.and_eq_true_iff.mp below).1
    exact ⟨by rw [List.drop_left], rfl⟩
  cases node with
  | directory => cases found
  | file data =>
  cases node' with
  | directory => cases found'
  | file data' =>
  obtain ⟨rfl, rfl⟩ := whole found
  obtain ⟨rfl, rfl⟩ := whole found'
  rfl

end ChartLift.FileTree
