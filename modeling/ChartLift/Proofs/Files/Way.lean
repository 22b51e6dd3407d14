import ChartLift.Proofs.Files.Tree
import Mathlib.Data.List.Infix
import Mathlib.Data.List.TakeWhile

/-!
# The ways of paths

The places that a path leads through (`FileTree.way`), of which those above its end are the ones that its
parent leads through (`way_of_parent`). A tree may `Precede` another one that has more: directories
that can be made, and files. What is done along a way on which the larger tree has no file more comes to
the same in both, and they go on to concur where they did (`Precedes.makeAlong`, `Precedes.write`).
-/

namespace ChartLift

open Text (Bytes)

/-! ## Parents -/

namespace FilePath

/-- That a path ends with a name. -/
structure EndsWith (path : FilePath) (before : List Char) (name : String) : Prop where
  text : path.text.toList = before ++ name.toList
  isName : Place.IsName name
  slash : before = [] ∨ before.getLast? = some '/'

variable {path : FilePath} {before : List Char} {name : String}

lemma parts_append_end (text : String) : parts ⟨text ++ "/"⟩ = parts ⟨text⟩ := by
  have split := parts_append_slash text ""
  rw [String.append_empty] at split
  rw [split]
  simp [parts, Text.splitAt]

/-- What is trimmed from the end of a path are parts that lead nowhere. -/
lemma parts_trimEnd (chars : List Char) :
    (parts ⟨String.ofList (trimEnd chars).reverse⟩).filter (· != ".") =
      (parts ⟨String.ofList chars.reverse⟩).filter (· != ".") := by
  induction chars using trimEnd.induct with
  | case1 c rest ih =>
    have text : String.ofList ('/' :: c :: rest).reverse = String.ofList (c :: rest).reverse ++ "/" :=
      String.toList_injective (by simp)
    rw [trimEnd, ih, text, parts_append_end]
  | case2 c rest ih =>
    have text : String.ofList ('.' :: '/' :: c :: rest).reverse =
        String.ofList (c :: rest).reverse ++ "/" ++ "." :=
      String.toList_injective (by simp)
    have text' : String.ofList ('/' :: c :: rest).reverse = String.ofList (c :: rest).reverse ++ "/" :=
      String.toList_injective (by simp)
    have dot : parts ⟨"."⟩ = ["."] := by decide
    rw [trimEnd, ih, text, text', parts_append_end, parts_append_slash, dot, List.filter_append]
    simp
  | case3 chars other other' => rw [trimEnd.eq_3 chars other other']

lemma getLast?_trimEnd (chars : List Char) : (trimEnd chars).getLast? = chars.getLast? := by
  induction chars using trimEnd.induct with
  | case1 c rest ih => rw [trimEnd, ih, List.getLast?_cons_cons]
  | case2 c rest ih =>
    rw [trimEnd, ih, List.getLast?_cons_cons, List.getLast?_cons_cons, List.getLast?_cons_cons]
  | case3 chars other other' => rw [trimEnd.eq_3 chars other other']

/-- The parent of a path that ends with a name is what stands before the name. -/
lemma EndsWith.parent (ends : path.EndsWith before name) :
    path.parent = ⟨String.ofList (trimEnd before.reverse).reverse⟩ := by
  have behind : name.toList.reverse.dropWhile (· != '/') = [] := by
    refine List.dropWhile_eq_nil_iff.mpr fun c mem => ?_
    have slashless := ends.isName.slashless
    simp only [bne_iff_ne]
    rintro rfl
    exact slashless (List.mem_reverse.mp mem)
  have kept : before.reverse.dropWhile (· != '/') = before.reverse := by
    rcases ends.slash with rfl | slash
    · rfl
    · obtain ⟨start, rfl⟩ := List.getLast?_eq_some_iff.mp slash
      simp
  rw [FilePath.parent, ends.text, List.reverse_append, List.dropWhile_append, behind]
  simp [kept]

/-- The parts of a path that ends with a name are those of its parent and the name, but for parts that
lead nowhere. -/
lemma EndsWith.parts (ends : path.EndsWith before name) : ∃ above, path.parts = above ++ [name] ∧
    path.parent.parts.filter (· != ".") = above.filter (· != ".") := by
  refine ⟨FilePath.parts ⟨String.ofList before⟩, ?_, ?_⟩
  · have single : FilePath.parts ⟨name⟩ = [name] :=
      @parts_display [name] (by simpa using ends.isName)
    rcases ends.slash with rfl | slash
    · have text : path = ⟨name⟩ := by
        obtain ⟨text⟩ := path
        exact congrArg _ (String.toList_injective (by simpa using ends.text))
      rw [text, single]
      rfl
    · obtain ⟨start, rfl⟩ := List.getLast?_eq_some_iff.mp slash
      have text : path = ⟨String.ofList start ++ "/" ++ name⟩ := by
        obtain ⟨text⟩ := path
        exact congrArg _ (String.toList_injective (by simpa using ends.text))
      have above : String.ofList (start ++ ['/']) = String.ofList start ++ "/" :=
        String.toList_injective (by simp)
      rw [text, parts_append_slash, single, above, parts_append_end]
  · rw [ends.parent, parts_trimEnd, List.reverse_reverse]

lemma EndsWith.isAbsolute (ends : path.EndsWith before name) :
    path.parent.isAbsolute = path.isAbsolute := by
  rw [FilePath.isAbsolute, FilePath.isAbsolute, ends.parent, ends.text, String.toList_ofList,
    List.head?_reverse, getLast?_trimEnd, List.getLast?_reverse]
  cases before with
  | nil =>
    rw [List.nil_append]
    exact (beq_eq_false_iff_ne.mpr ends.isName.head?_ne).symm
  | cons c rest => rfl

end FilePath

namespace FileTree

open FilePath

variable {tree tree' after after' : FileTree} {path : FilePath} {place there other : Place}
  {data : Bytes} {parts : List String} {part : String}

/-! ## Ways -/

/-- The places that parts lead through, one after the other. -/
def along (place : Place) : List String → List Place
  | [] => []
  | part :: rest => step place part :: along (step place part) rest

/-- The places that a path leads through, from where it begins to where it ends. -/
def way (path : FilePath) : List Place := start path :: along (start path) path.parts

lemma along_append (place : Place) (parts rest : List String) :
    along place (parts ++ rest) = along place parts ++ along (parts.foldl step place) rest := by
  induction parts generalizing place with
  | nil => rfl
  | cons part parts ih => rw [List.cons_append, along, along, ih, List.cons_append, List.foldl_cons]

/-- Parts that lead nowhere add no place to a way. -/
lemma mem_along_filter (other place : Place) (parts : List String) :
    other ∈ place :: along place parts ↔ other ∈ place :: along place (parts.filter (· != ".")) := by
  induction parts generalizing place with
  | nil => rfl
  | cons part rest ih =>
    by_cases here : part = "."
    · subst here
      rw [List.filter_cons_of_neg (by simp), ← ih, along, step, if_pos rfl]
      simp
    · rw [List.filter_cons_of_pos (by simpa using here), along, along, List.mem_cons, ih,
        ← List.mem_cons]

/-- The way of a path that ends with a name is that of its parent, and then its end. -/
lemma way_of_parent {before : List Char} {name : String} (ends : path.EndsWith before name) :
    ∃ above, path.parts = above ++ [name] ∧
      ∀ place, place ∈ start path :: along (start path) above ↔ place ∈ way path.parent := by
  obtain ⟨above, whole, same⟩ := ends.parts
  have begins : start path.parent = start path := by rw [start, start, ends.isAbsolute]
  refine ⟨above, whole, fun place => ?_⟩
  rw [way, begins, mem_along_filter, mem_along_filter _ _ path.parent.parts, same]

lemma mem_way_of_parent {before : List Char} {name : String} (ends : path.EndsWith before name)
    (mem : place ∈ way path.parent) : place ∈ way path := by
  obtain ⟨above, whole, same⟩ := way_of_parent ends
  rw [way, whole, along_append, ← List.cons_append]
  exact List.mem_append_left _ ((same place).mpr mem)

lemma way_join (path : FilePath) {rest : Place} (named : ∀ name ∈ rest, Place.IsName name) :
    way (path.join ⟨rest.display⟩) = way path ++ along (destination path) rest := by
  have inside := isAbsolute_display named
  have begins : start (path.join ⟨rest.display⟩) = start path := by
    rw [start, start, isAbsolute_join inside]
  rw [way, way, begins, parts_join inside, parts_display named, along_append, ← destination_eq]
  rfl

/-- Names lead through the places that they are names of, one below the other. -/
lemma exists_of_mem_along {rest : Place} (named : ∀ name ∈ rest, Place.IsName name)
    (mem : other ∈ along place rest) :
    ∃ upper lower, rest = upper ++ lower ∧ upper ≠ [] ∧ other = place ++ upper := by
  induction rest generalizing place with
  | nil => cases mem
  | cons name rest ih =>
    obtain ⟨here, others⟩ := List.forall_mem_cons.mp named
    rw [along, step, if_neg here.onward, if_neg here.downward] at mem
    rcases List.mem_cons.mp mem with rfl | mem
    · exact ⟨[name], rest, rfl, by simp, rfl⟩
    · obtain ⟨upper, lower, rfl, -, rfl⟩ := ih others mem
      exact ⟨name :: upper, lower, rfl, by simp, by simp⟩

/-! ## Directories on the way -/

lemma at?_start (tree : FileTree) (path : FilePath) : tree.at? (start path) = some .directory := by
  rw [start, at?]
  split <;> rfl

/-- Where directories have been made along parts, they stand. -/
lemma directory_of_makeAlong (h : tree.makeAlong place parts = .ok tree')
    (mem : other ∈ along place parts) : tree'.at? other = some .directory := by
  induction parts generalizing tree place with
  | nil => cases mem
  | cons part rest ih =>
    rw [makeAlong] at h
    rw [along, List.mem_cons] at mem
    split at h
    · rename_i there
      rcases mem with rfl | mem
      · exact grows_of_makeAlong h _ _ there
      · exact ih h mem
    · split at h <;> cases h
    · rename_i free
      split at h
      · cases h
      · rcases mem with rfl | mem
        · have unoccupied : tree.at? (step place part) ≠ some .directory := by simp [free]
          exact grows_of_makeAlong h _ _ (at?_put_self tree _ (inside_of_at?_ne unoccupied))
        · exact ih h mem

lemma directory_of_makeDirectories (h : tree.makeDirectories path = .ok tree') (mem : other ∈ way path) :
    tree'.at? other = some .directory := by
  rcases List.mem_cons.mp mem with rfl | mem
  · exact at?_start _ _
  · exact directory_of_makeAlong h mem

/-- Parts that can be followed lead through directories. -/
lemma directory_of_follow (h : tree.follow place parts = .ok there)
    (mem : other ∈ place :: along place parts) :
    other = there ∨ tree.at? other = some .directory := by
  induction parts generalizing place with
  | nil =>
    obtain rfl := List.mem_singleton.mp mem
    exact .inl (Except.ok.inj h)
  | cons part rest ih =>
    rw [follow] at h
    split at h
    · cases h
    · cases h
    · rename_i directory
      split at h
      · cases h
      rcases List.mem_cons.mp mem with rfl | mem
      · exact .inr directory
      · exact ih h mem

/-- The way of a directory leads through directories. -/
lemma directory_of_mem_way (h : tree.directory? path = some there) (mem : other ∈ way path) :
    tree.at? other = some .directory := by
  obtain ⟨found, isDirectory⟩ := Option.filter_eq_some_iff.mp h
  rw [existing?] at found
  split at found
  · cases found
  rename_i resolved
  split at found
  · cases found
    rw [resolve] at resolved
    split at resolved
    · cases resolved
    have further : other ∈ start path :: along (start path) (partsOf path) := by
      rw [partsOf]
      split
      · rw [along_append, ← List.cons_append]
        exact List.mem_append_left _ mem
      · exact mem
    rcases directory_of_follow resolved further with rfl | directory
    · exact eq_of_beq isDirectory
    · exact directory
  · cases found

/-- That all that stands in a tree stands in directories. -/
def Founded (tree : FileTree) : Prop :=
  ∀ entry ∈ tree.nodes, ∀ above ∈ entry.1.inits, above ≠ entry.1 → tree.at? above = some .directory

instance (tree : FileTree) : Decidable tree.Founded :=
  inferInstanceAs (Decidable (∀ entry ∈ tree.nodes, ∀ above ∈ entry.1.inits, above ≠ entry.1 →
    tree.at? above = some .directory))

/-- Something stands wherever the place of a file leads through. -/
lemma Founded.exists_node {upper lower : Place} (founded : tree.Founded) (valid : tree.Valid)
    (there : tree.at? (place ++ (upper ++ lower)) = some (.file data)) :
    ∃ node, tree.at? (place ++ upper) = some node := by
  by_cases end_ : lower = []
  · rw [end_, List.append_nil] at there
    exact ⟨_, there⟩
  have unoccupied : tree.at? (place ++ (upper ++ lower)) ≠ some .directory := by simp [there]
  have mem := (valid.at?_eq_some_iff (inside_of_at?_ne unoccupied)).mp there
  rw [← List.append_assoc] at mem
  refine ⟨.directory, founded _ mem _ ((List.mem_inits _ _).mpr (List.prefix_append _ _)) ?_⟩
  exact fun same => end_ (List.self_eq_append_right.mp same)

/-- How far parts can be followed shows at the places that they lead through before the end. -/
lemma follow_congr {last : String}
    (same : ∀ other ∈ place :: along place parts, tree'.at? other = tree.at? other) :
    tree'.follow place (parts ++ [last]) = tree.follow place (parts ++ [last]) := by
  induction parts generalizing place with
  | nil =>
    rw [List.nil_append, follow, follow, same place List.mem_cons_self]
    rfl
  | cons part rest ih =>
    rw [List.cons_append, follow, follow, same place List.mem_cons_self]
    rw [ih fun other mem => same other (List.mem_cons_of_mem _ mem)]

/-- Where the directories above a name have been made, its path can be followed or not whatever else
there is. -/
lemma resolve_of_parent {before : List Char} {name : String} (ends : path.EndsWith before name)
    (above : ∀ place ∈ way path.parent, tree.at? place = some .directory)
    (above' : ∀ place ∈ way path.parent, tree'.at? place = some .directory) :
    tree'.resolve path = tree.resolve path := by
  obtain ⟨upper, whole, same⟩ := way_of_parent ends
  have slashless : path.text.toList.getLast? ≠ some '/' := by
    rw [ends.text, List.getLast?_append_of_ne_nil _ ends.isName.toList_ne]
    exact fun last => ends.isName.slashless (List.mem_of_getLast? last)
  have followed : partsOf path = upper ++ [name] := by
    rw [partsOf, beq_eq_false_iff_ne.mpr slashless, if_neg Bool.false_ne_true, whole]
  rw [resolve, resolve, followed, follow_congr fun place mem => ?_]
  rw [above _ ((same place).mp mem), above' _ ((same place).mp mem)]

/-! ## Larger trees -/

/-- That a tree has all that another one has, and more only as long as the directories among that can be
made. -/
structure Precedes (tree tree' : FileTree) : Prop where
  grows : tree.Grows tree'
  short : ∀ place part, tree.at? (place ++ [part]) = none →
    tree'.at? (place ++ [part]) = some .directory → (Text.bytes part).length ≤ longestName

lemma Precedes.refl (tree : FileTree) : tree.Precedes tree :=
  ⟨.refl tree, fun _ _ absent there => nomatch absent.symm.trans there⟩

lemma Precedes.trans {tree'' : FileTree} (first : tree.Precedes tree') (then_ : tree'.Precedes tree'') :
    tree.Precedes tree'' := by
  refine ⟨first.grows.trans then_.grows, fun place part absent there => ?_⟩
  cases middle : tree'.at? (place ++ [part]) with
  | none => exact then_.short place part middle there
  | some node =>
    cases (then_.grows _ _ middle).symm.trans there
    exact first.short place part absent middle

/-- That a directory and all those above it are there, up to where paths begin. -/
inductive Stood (tree : FileTree) : Place → Prop where
  | outside {place : Place} :
    place.all Place.isOutward = true →
    Stood tree place
  | within {place : Place} {name : String} :
    Stood tree place →
    Place.isOutward name = false →
    tree.at? (place ++ [name]) = some .directory →
    Stood tree (place ++ [name])

lemma Stood.directory (stood : tree.Stood place) : tree.at? place = some .directory := by
  cases stood with
  | outside outward => rw [at?, if_pos outward]
  | within _ _ there => exact there

lemma Stood.grows (stood : tree.Stood place) (grows : tree.Grows tree') : tree'.Stood place := by
  induction stood with
  | outside outward => exact .outside outward
  | within _ inward there ih => exact .within ih inward (grows _ _ there)

lemma Stood.up (stood : tree.Stood place) : tree.Stood place.up := by
  cases stood with
  | outside outward =>
    refine .outside ?_
    rw [Place.up]
    split
    · rfl
    · rw [List.all_append, outward]
      rfl
    · exact outward
    · rw [List.all_eq_true] at outward ⊢
      exact fun name mem => outward name (List.dropLast_subset _ mem)
  | @within above name stood inward there =>
    have last : (above ++ [name]).getLast? = some name := by simp
    rw [Place.up, last]
    split
    · contradiction
    · rename_i up
      cases up
      cases inward
    · rename_i top
      cases top
      cases inward
    · rwa [List.dropLast_concat]

/-- Directories that are made from where paths begin can be made. -/
lemma Stood.precedes_of_makeAlong (stood : tree.Stood place) (h : tree.makeAlong place parts = .ok tree')
    (proper : ∀ part ∈ parts, part ≠ "" ∧ '/' ∉ part.toList) : tree.Precedes tree' := by
  induction parts generalizing tree place with
  | nil =>
    cases h
    exact .refl _
  | cons part rest ih =>
    obtain ⟨⟨-, slashless⟩, others⟩ := List.forall_mem_cons.mp proper
    -- a part that leads nowhere, or up, leads to a directory that is there
    have next : tree.Stood (step place part) ∨
        step place part = place ++ [part] ∧ Place.isOutward part = false := by
      rw [step]
      split_ifs with here up
      · exact .inl stood
      · exact .inl stood.up
      · have top : part ≠ "/" := by
          rintro rfl
          exact slashless (by decide)
        exact .inr ⟨rfl, by simp [Place.isOutward, up, top]⟩
    rw [makeAlong] at h
    split at h
    · rename_i there
      rcases next with next | ⟨down, inward⟩
      · exact ih next h others
      · rw [down] at h there
        exact ih (.within stood inward there) h others
    · split at h <;> cases h
    · rename_i free
      split at h
      · cases h
      rename_i fits
      rcases next with next | ⟨down, inward⟩
      · cases free.symm.trans next.directory
      · rw [down] at h free
        have unoccupied : tree.at? (place ++ [part]) ≠ some .directory := by simp [free]
        have grows := grows_put free .directory
        have made : tree.Precedes (tree.put (place ++ [part]) .directory) := by
          refine ⟨grows, fun above name absent there => ?_⟩
          by_cases same : above ++ [name] = place ++ [part]
          · rw [List.singleton_inj.mp (List.append_inj' same rfl).2]
            exact Nat.not_lt.mp fits
          · rw [at?_put_of_ne _ _ same, absent] at there
            cases there
        refine made.trans (ih (.within (stood.grows grows) inward ?_) h others)
        exact at?_put_self tree _ (inside_of_at?_ne unoccupied)

lemma precedes_of_makeDirectories (h : tree.makeDirectories path = .ok tree') : tree.Precedes tree' := by
  refine Stood.precedes_of_makeAlong (.outside ?_) h fun _ mem => slashless_of_mem_parts mem
  rw [start]
  split <;> rfl

/-- A tree with a new file has no directories more. -/
lemma precedes_of_create (h : tree.create path data = .ok tree') : tree.Precedes tree' := by
  refine ⟨grows_of_create h, fun above part absent there => ?_⟩
  obtain ⟨free, rfl⟩ := create_eq h
  have unoccupied : tree.at? (destination path) ≠ some .directory := by simp [free]
  by_cases same : above ++ [part] = destination path
  · rw [same, at?_put_self tree _ (inside_of_at?_ne unoccupied)] at there
    cases there
  · rw [at?_put_of_ne _ _ same, absent] at there
    cases there

/-- That trees concur, after they have changed, wherever they did. -/
structure Concur (tree tree' after after' : FileTree) : Prop where
  nodes : ∀ place, tree'.at? place = tree.at? place → after'.at? place = after.at? place
  files : ∀ place, tree'.data? place = tree.data? place → after'.data? place = after.data? place

lemma Concur.refl (tree tree' : FileTree) : Concur tree tree' tree tree' :=
  ⟨fun _ same => same, fun _ same => same⟩

lemma Concur.trans {middle middle' : FileTree} (first : Concur tree tree' middle middle')
    (then_ : Concur middle middle' after after') : Concur tree tree' after after' :=
  ⟨fun place same => then_.nodes place (first.nodes place same),
    fun place same => then_.files place (first.files place same)⟩

/-- Trees concur where the same has been put in both. -/
lemma Precedes.put (precedes : tree.Precedes tree') (node : FileNode)
    (free : tree.at? place ≠ some .directory) :
    (tree.put place node).Precedes (tree'.put place node) ∧
      Concur tree tree' (tree.put place node) (tree'.put place node) := by
  have inside := inside_of_at?_ne free
  have here : (tree'.put place node).at? place = (tree.put place node).at? place := by
    rw [at?_put_self _ _ inside, at?_put_self _ _ inside]
  refine ⟨⟨fun other what there => ?_, fun above part absent there => ?_⟩,
    fun other same => ?_, fun other same => ?_⟩
  · by_cases same : other = place
    · subst same
      rwa [here]
    · rw [at?_put_of_ne _ _ same] at there ⊢
      exact precedes.grows _ _ there
  · by_cases same : above ++ [part] = place
    · rw [same, at?_put_self _ _ inside] at absent
      cases absent
    · rw [at?_put_of_ne _ _ same] at absent there
      exact precedes.short above part absent there
  · by_cases new : other = place
    · rw [new, here]
    · rw [at?_put_of_ne _ _ new, at?_put_of_ne _ _ new, same]
  · by_cases new : other = place
    · rw [new, data?, data?, here]
    · rw [data?, data?, at?_put_of_ne _ _ new, at?_put_of_ne _ _ new]
      exact same

/-- Trees concur where a directory has been put in one that stands in the other. -/
lemma Precedes.put_directory (precedes : tree.Precedes tree') (free : tree.at? place = none)
    (there : tree'.at? place = some .directory) :
    (tree.put place .directory).Precedes tree' ∧ Concur tree tree' (tree.put place .directory) tree' := by
  have unoccupied : tree.at? place ≠ some .directory := by simp [free]
  have inside := inside_of_at?_ne unoccupied
  refine ⟨⟨fun other what stands => ?_, fun above part absent stands => ?_⟩,
    fun other same => ?_, fun other same => ?_⟩
  · by_cases same : other = place
    · subst same
      rw [at?_put_self _ _ inside] at stands
      cases stands
      exact there
    · rw [at?_put_of_ne _ _ same] at stands
      exact precedes.grows _ _ stands
  · by_cases same : above ++ [part] = place
    · rw [same, at?_put_self _ _ inside] at absent
      cases absent
    · rw [at?_put_of_ne _ _ same] at absent
      exact precedes.short above part absent stands
  · by_cases new : other = place
    · rw [new, there, at?_put_self _ _ inside]
    · rw [at?_put_of_ne _ _ new, same]
  · rw [put_directory_data? free, same]

/-- A part that leads to a place where a directory can be made is no longer than a name. -/
lemma Precedes.part_short (precedes : tree.Precedes tree') (absent : tree.at? (step place part) = none)
    (there : tree'.at? (step place part) = some .directory) :
    ¬ longestName < (Text.bytes part).length := by
  have dots : ¬ longestName < (Text.bytes ".").length ∧ ¬ longestName < (Text.bytes "..").length := by
    decide
  rw [step] at absent there
  split_ifs at absent there with here up
  · rw [here]
    exact dots.1
  · rw [up]
    exact dots.2
  · exact Nat.not_lt.mpr (precedes.short place part absent there)

/-- Directories are made alike along parts on whose way a larger tree has no files more. -/
lemma Precedes.makeAlong (precedes : tree.Precedes tree')
    (clear : ∀ other ∈ along place parts, tree'.data? other = tree.data? other) :
    (∃ fault, tree.makeAlong place parts = .error fault ∧ tree'.makeAlong place parts = .error fault) ∨
    ∃ after after', tree.makeAlong place parts = .ok after ∧ tree'.makeAlong place parts = .ok after' ∧
      after.Precedes after' ∧ Concur tree tree' after after' := by
  induction parts generalizing tree tree' place with
  | nil => exact .inr ⟨tree, tree', rfl, rfl, precedes, .refl _ _⟩
  | cons part rest ih =>
    obtain ⟨here, others⟩ := List.forall_mem_cons.mp clear
    -- what is made at the first place leaves the way of the others clear
    have onward : ∀ {middle middle' : FileTree}, middle.Precedes middle' →
        Concur tree tree' middle middle' →
        (∃ fault, middle.makeAlong (step place part) rest = .error fault ∧
          middle'.makeAlong (step place part) rest = .error fault) ∨
        ∃ after after', middle.makeAlong (step place part) rest = .ok after ∧
          middle'.makeAlong (step place part) rest = .ok after' ∧
          after.Precedes after' ∧ Concur tree tree' after after' := by
      intro middle middle' still concur
      refine (ih still fun other mem => concur.files other (others other mem)).imp id ?_
      rintro ⟨after, after', made, made', precedes, concur'⟩
      exact ⟨after, after', made, made', precedes, concur.trans concur'⟩
    rw [FileTree.makeAlong, FileTree.makeAlong]
    cases there : tree.at? (step place part) with
    | some node =>
      rw [precedes.grows _ _ there]
      cases node with
      | directory => exact onward precedes (.refl _ _)
      | file data => exact .inl ⟨_, rfl, rfl⟩
    | none =>
      cases there' : tree'.at? (step place part) with
      | none =>
        dsimp only
        split
        · exact .inl ⟨_, rfl, rfl⟩
        · have unoccupied : tree.at? (step place part) ≠ some .directory := by simp [there]
          obtain ⟨still, concur⟩ := precedes.put .directory unoccupied
          exact onward still concur
      | some node =>
        cases node with
        | directory =>
          dsimp only
          rw [if_neg (precedes.part_short there there')]
          obtain ⟨still, concur⟩ := precedes.put_directory there there'
          exact onward still concur
        | file data => simp [data?, there, there'] at here

/-- A file is written alike to a path that can be followed alike and ends where nothing is different. -/
lemma Precedes.write (precedes : tree.Precedes tree') (followed : tree'.resolve path = tree.resolve path)
    (ends : tree'.at? (destination path) = tree.at? (destination path)) :
    (∃ fault, tree.write path data = .error fault ∧ tree'.write path data = .error fault) ∨
    ∃ after after', tree.write path data = .ok after ∧ tree'.write path data = .ok after' ∧
      after.Precedes after' ∧ Concur tree tree' after after' := by
  rw [FileTree.write, FileTree.write, followed]
  cases resolved : tree.resolve path with
  | error fault => exact .inl ⟨_, rfl, rfl⟩
  | ok place =>
    obtain rfl := eq_destination resolved
    dsimp only
    rw [ends]
    by_cases directory : tree.at? (destination path) = some .directory
    · rw [directory]
      exact .inl ⟨_, rfl, rfl⟩
    · obtain ⟨still, concur⟩ := precedes.put (.file data) directory
      refine .inr ⟨_, _, ?_, ?_, still, concur⟩ <;> split
      · contradiction
      · rfl
      · contradiction
      · rfl

/-- That a path is clear of what a tree has more than another one: there is no file more on its way, and
nothing more at its end. -/
structure Clear (tree tree' : FileTree) (path : FilePath) : Prop where
  way : ∀ place ∈ way path, tree'.data? place = tree.data? place
  ends : tree'.at? (destination path) = tree.at? (destination path)

/-- A path from a directory to a name is clear if nothing more stands at the places below the directory. -/
lemma clear_join {rest : Place} (grows : tree.Grows tree') (directory : tree.directory? path = some there)
    (named : ∀ name ∈ rest, Place.IsName name) (below : rest ≠ [])
    (same : ∀ upper lower, rest = upper ++ lower → upper ≠ [] →
      tree'.at? (destination path ++ upper) = tree.at? (destination path ++ upper)) :
    tree.Clear tree' (path.join ⟨rest.display⟩) := by
  refine ⟨fun place mem => ?_, ?_⟩
  · rw [way_join path named] at mem
    have here : tree'.at? place = tree.at? place := by
      rcases List.mem_append.mp mem with above | along
      · exact grows.at?_eq (directory_of_mem_way directory above)
      · obtain ⟨upper, lower, whole, some, rfl⟩ := exists_of_mem_along named along
        exact same upper lower whole some
    rw [data?, data?, here]
  · rw [destination_join_display path named]
    exact same rest [] (List.append_nil _).symm below

lemma Clear.concur (clear : tree.Clear tree' path) (concur : Concur tree tree' after after') :
    after.Clear after' path :=
  ⟨fun place mem => concur.files place (clear.way place mem), concur.nodes _ clear.ends⟩

end FileTree

end ChartLift
