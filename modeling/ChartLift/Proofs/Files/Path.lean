import ChartLift.Files.Tree
import ChartLift.Proofs.Text.Split
import Mathlib.Tactic.SplitIfs

/-!
# Where paths lead

A path leads to one place at most, whatever files there are (`FileTree.destination`), and a path that
is joined to the name of a file leads on from there by the parts of the name
(`FileTree.destination_join_display`).
-/

namespace ChartLift

/-! ## Names -/

/-- A name that a directory can hold: it is one part of a path and leads down. -/
structure Place.IsName (name : String) : Prop where
  nonempty : name ≠ ""
  slashless : '/' ∉ name.toList
  onward : name ≠ "."
  downward : name ≠ ".."

/-- A place of names that lead down or out of the working directory. -/
def Place.Named (place : Place) : Prop :=
  ∀ name ∈ place, Place.isOutward name = true ∨ Place.IsName name

instance (name : String) : Decidable (Place.IsName name) :=
  decidable_of_iff (name ≠ "" ∧ '/' ∉ name.toList ∧ name ≠ "." ∧ name ≠ "..")
    ⟨fun ⟨nonempty, slashless, onward, downward⟩ => ⟨nonempty, slashless, onward, downward⟩,
      fun isName => ⟨isName.nonempty, isName.slashless, isName.onward, isName.downward⟩⟩

instance (place : Place) : Decidable place.Named :=
  inferInstanceAs (Decidable (∀ name ∈ place, Place.isOutward name = true ∨ Place.IsName name))

lemma Place.IsName.head?_ne {name : String} (isName : Place.IsName name) :
    name.toList.head? ≠ some '/' :=
  fun first => isName.slashless (List.mem_of_head? first)

lemma Place.IsName.toList_ne {name : String} (isName : Place.IsName name) : name.toList ≠ [] :=
  fun none => isName.nonempty (String.toList_eq_nil_iff.mp none)

lemma Place.toList_display (place : Place) :
    place.display.toList = ['/'].intercalate (place.map String.toList) := by
  rw [Place.display, String.toList_intercalate]
  rfl

/-- A place inside another one ends, in words, with its own name. -/
lemma Place.exists_toList_display_concat (place : Place) (name : String) :
    place = [] ∧ (Place.display (place ++ [name])).toList = name.toList ∨
      ∃ before, (Place.display (place ++ [name])).toList = before ++ '/' :: name.toList := by
  rw [toList_display, List.map_append]
  induction place with
  | nil => exact .inl ⟨rfl, by simp⟩
  | cons first rest ih =>
    right
    cases rest with
    | nil => exact ⟨first.toList, by simp⟩
    | cons second rest =>
      obtain ⟨none, -⟩ | ⟨before, behind⟩ := ih
      · cases none
      · exact ⟨first.toList ++ '/' :: before, by simpa using behind⟩

namespace FilePath

/-! ## Parts -/

/-- The parts of a path are those before and those behind any of its slashes. -/
lemma parts_append_slash (a b : String) :
    parts ⟨a ++ "/" ++ b⟩ = parts ⟨a⟩ ++ parts ⟨b⟩ := by
  have split : (a ++ "/" ++ b).toList = a.toList ++ '/' :: b.toList := by simp
  simp only [parts, split, Text.splitAt_append_cons, List.filter_append, List.map_append]

/-- The parts of a place in words are its names. -/
lemma parts_display {place : Place} (named : ∀ name ∈ place, Place.IsName name) :
    parts ⟨place.display⟩ = place := by
  cases place with
  | nil => rfl
  | cons first rest =>
    rw [parts, Place.toList_display, Text.splitAt_intercalate]
    · have kept : ((first :: rest).map String.toList).filter (!·.isEmpty) =
          (first :: rest).map String.toList := by
        refine List.filter_eq_self.mpr fun part mem => ?_
        obtain ⟨name, member, rfl⟩ := List.mem_map.mp mem
        simpa using (named name member).nonempty
      rw [kept, List.map_map]
      exact List.map_id'' (fun name => String.ofList_toList) _
    · intro part mem
      obtain ⟨name, member, rfl⟩ := List.mem_map.mp mem
      exact (named name member).slashless
    · exact List.cons_ne_nil _ _

lemma eq_of_display_eq {place other : Place} (named : ∀ name ∈ place, Place.IsName name)
    (named' : ∀ name ∈ other, Place.IsName name) (same : place.display = other.display) :
    place = other := by
  rw [← parts_display named, same, parts_display named']

/-- The parts of a path are not empty, and no slash stands in them. -/
lemma slashless_of_mem_parts {path : FilePath} {part : String} (mem : part ∈ path.parts) :
    part ≠ "" ∧ '/' ∉ part.toList := by
  obtain ⟨chars, kept, rfl⟩ := List.mem_map.mp mem
  obtain ⟨between, some⟩ := List.mem_filter.mp kept
  refine ⟨by simpa using some, ?_⟩
  rw [String.toList_ofList]
  exact Text.not_mem_of_mem_splitAt between

/-- The parts of a joined path are those of its two sides. -/
lemma parts_join {path other : FilePath} (inside : other.isAbsolute = false) :
    (path.join other).parts = path.parts ++ other.parts := by
  rw [join, if_neg (by simp [inside])]
  split
  · rename_i h
    by_cases empty : path.text = ""
    · obtain ⟨text⟩ := path
      subst empty
      simp [parts, Text.splitAt]
    · -- the path ends with a slash of its own
      obtain ⟨before, ends⟩ : ∃ before, path.text = before ++ "/" := by
        have last : path.text.toList.getLast? = some '/' := by simpa [empty] using h
        obtain ⟨before, e⟩ := List.getLast?_eq_some_iff.mp last
        exact ⟨String.ofList before, String.toList_injective (by simpa using e)⟩
      have parts_before : path.parts = parts ⟨before⟩ := by
        have := parts_append_slash before ""
        rw [String.append_empty] at this
        rw [show path = ⟨before ++ "/"⟩ from congrArg FilePath.mk ends, this]
        simp [parts, Text.splitAt]
      rw [parts_before, ends]
      exact parts_append_slash before other.text
  · exact parts_append_slash path.text other.text

/-- A path keeps its beginning when another one is joined to it, unless it is empty. -/
lemma isAbsolute_join {path other : FilePath} (inside : other.isAbsolute = false) :
    (path.join other).isAbsolute = path.isAbsolute := by
  rw [join, if_neg (by simp [inside])]
  obtain ⟨text⟩ := path
  rcases chars : text.toList with _ | ⟨c, rest⟩
  · have empty : text = "" := String.toList_eq_nil_iff.mp chars
    subst empty
    simpa [isAbsolute] using inside
  · split <;> simp [isAbsolute, chars]

/-- A place in words does not begin with a slash, as no name does. -/
lemma isAbsolute_display {place : Place} (named : ∀ name ∈ place, Place.IsName name) :
    isAbsolute ⟨place.display⟩ = false := by
  cases place with
  | nil => rfl
  | cons first rest =>
    have here := named first List.mem_cons_self
    have head : (Place.display (first :: rest)).toList.head? = first.toList.head? := by
      rw [Place.toList_display]
      obtain ⟨c, chars, e⟩ := List.exists_cons_of_ne_nil here.toList_ne
      cases rest <;> simp [e]
    simpa [isAbsolute, head] using here.head?_ne

/-! ## Steps -/

/-- The names that a path goes down by are names that a directory can hold. -/
lemma isName_of_down_mem_steps {path : FilePath} {name : String} (mem : .down name ∈ path.steps) :
    Place.IsName name := by
  have mem : .down name ∈ path.parts.map stepOf := by
    rw [steps] at mem
    split at mem
    · exact (List.mem_filter.mp ((List.mem_cons.mp mem).resolve_left (by simp))).1
    · split at mem
      · exact (List.mem_filter.mp ((List.mem_cons.mp mem).resolve_left (by simp))).1
      · exact (List.mem_filter.mp mem).1
  obtain ⟨part, member, leads⟩ := List.mem_map.mp mem
  rw [stepOf] at leads
  split at leads
  · cases leads
  split at leads
  · cases leads
  rename_i onward downward
  cases leads
  obtain ⟨nonempty, slashless⟩ := slashless_of_mem_parts member
  exact ⟨nonempty, slashless, onward, downward⟩

lemma parts_ne_nil {path : FilePath} (begins : path.text ≠ "") (inside : path.isAbsolute = false) :
    path.parts ≠ [] := by
  obtain ⟨c, rest, chars⟩ := List.exists_cons_of_ne_nil (mt String.toList_eq_nil_iff.mp begins)
  have first : c ≠ '/' := by simpa [isAbsolute, chars] using inside
  rw [parts, chars, Text.splitAt, if_neg first]
  split <;> simp

/-- A path that is joined to another one goes on by its steps. -/
lemma steps_join {path other : FilePath} (inside : other.isAbsolute = false) (begins : path.text ≠ "") :
    (path.join other).steps = path.steps ++ other.steps.filter (· != .here) := by
  have onward : other.steps.filter (· != .here) = (other.parts.map stepOf).filter (· != .here) := by
    rw [steps, if_neg (by simp [inside])]
    split
    · rw [List.filter_cons_of_neg (by simp), List.filter_filter]
      simp
    · simp
  rw [onward, steps, steps, isAbsolute_join inside, parts_join inside, List.map_append,
    List.filter_append]
  cases absolute : path.isAbsolute with
  | true => rfl
  | false =>
    obtain ⟨part, rest, e⟩ := List.exists_cons_of_ne_nil (parts_ne_nil begins absolute)
    rw [e, List.map_cons, List.cons_append, List.head?_cons, List.head?_cons]
    split_ifs <;> rfl

end FilePath

/-! ## Destinations -/

namespace FileTree

open FilePath

variable {tree : FileTree} {path : FilePath} {place there : Place} {parts : List String}

/-- The place that a path leads to, through whatever stands on its way. -/
def destination (path : FilePath) : Place := (partsOf path).foldl step (start path)

/-- Where parts can be followed they lead to one place only. -/
lemma eq_of_follow (h : tree.follow place parts = .ok there) : there = parts.foldl step place := by
  induction parts generalizing place with
  | nil => exact (Except.ok.inj h).symm
  | cons part rest ih =>
    rw [follow] at h
    split at h
    · cases h
    · cases h
    · split at h
      · cases h
      · exact ih h

/-- Where a path can be followed it leads to its destination. -/
lemma eq_destination (h : tree.resolve path = .ok place) : place = destination path := by
  rw [resolve] at h
  split at h
  · cases h
  · exact eq_of_follow h

/-- What stands at the end of a path stands at its destination. -/
lemma eq_destination_of_existing (h : tree.existing? path = some place) :
    place = destination path := by
  rw [existing?] at h
  split at h
  · cases h
  · rename_i resolved
    split at h
    · exact Option.some.inj h ▸ eq_destination resolved
    · cases h

/-- A slash at the end of a path leads nowhere else. -/
lemma destination_eq (path : FilePath) : destination path = path.parts.foldl step (start path) := by
  rw [destination, partsOf]
  split
  · rw [List.foldl_append]
    simp [step]
  · rfl

lemma foldl_step (named : ∀ name ∈ parts, Place.IsName name) :
    parts.foldl step place = place ++ parts := by
  induction parts generalizing place with
  | nil => simp
  | cons name rest ih =>
    obtain ⟨here, others⟩ := List.forall_mem_cons.mp named
    rw [List.foldl_cons, ih others, step, if_neg here.onward, if_neg here.downward]
    simp

/-- A path with the name of a file joined to it leads on by the parts of the name. -/
lemma destination_join_display (path : FilePath) {rest : Place}
    (named : ∀ name ∈ rest, Place.IsName name) :
    destination (path.join ⟨rest.display⟩) = destination path ++ rest := by
  -- joining does not start over at the root
  have inside := isAbsolute_display named
  rw [destination_eq, parts_join inside, parts_display named, List.foldl_append, foldl_step named,
    destination_eq, start, start, isAbsolute_join inside]

/-- A path with a single name joined to it leads on by the name. -/
lemma destination_join (path : FilePath) {name : String} (isName : Place.IsName name) :
    destination (path.join ⟨name⟩) = destination path ++ [name] := by
  have display : Place.display [name] = name := rfl
  have named : ∀ other ∈ [name], Place.IsName other := by simpa using isName
  simpa only [display] using destination_join_display path named

/-- The place that a step leads to. -/
def lead (place : Place) : Step → Place
  | .top => ["/"]
  | .here => place
  | .up => place.up
  | .down name => place ++ [name]

lemma lead_stepOf (place : Place) (part : String) : lead place (stepOf part) = step place part := by
  rw [stepOf, step]
  split_ifs <;> rfl

/-- A path leads where its steps lead, one after the other. -/
lemma destination_eq_foldl_steps (path : FilePath) : destination path = path.steps.foldl lead [] := by
  have along : ∀ (parts : List String) (place : Place),
      ((parts.map stepOf).filter (· != .here)).foldl lead place = parts.foldl step place := by
    intro parts
    induction parts with
    | nil => exact fun _ => rfl
    | cons part rest ih =>
      intro place
      rw [List.foldl_cons, ← lead_stepOf, ← ih, List.map_cons, List.filter_cons]
      split
      · rfl
      · rename_i here
        rw [show stepOf part = .here by simpa using here]
        rfl
  rw [destination_eq, steps, start]
  split_ifs with absolute here
  · exact (along _ _).symm
  · exact (along _ _).symm
  · exact (along _ _).symm

lemma foldl_lead_down (names : List String) (place : Place) :
    (names.map .down).foldl lead place = place ++ names := by
  induction names generalizing place with
  | nil => simp
  | cons name rest ih => rw [List.map_cons, List.foldl_cons, ih, lead, List.append_assoc]; rfl

/-- A path that goes on with names to go down leads down by these names. -/
lemma destination_of_steps_eq {other : FilePath} {names : List String}
    (written : other.steps = path.steps ++ names.map .down) :
    destination other = destination path ++ names := by
  rw [destination_eq_foldl_steps, written, List.foldl_append, ← destination_eq_foldl_steps,
    foldl_lead_down]

lemma named_step {part : String} (named : place.Named) (nonempty : part ≠ "")
    (slashless : '/' ∉ part.toList) : (step place part).Named := by
  have outward : Place.isOutward ".." = true := rfl
  rw [step]
  split_ifs with here up
  · exact named
  · -- up from outside, or from where nothing is left to leave, leads further out
    rw [Place.up]
    split
    · simpa [Place.Named] using .inl outward
    · intro name mem
      rcases List.mem_append.mp mem with mem | mem
      · exact named name mem
      · exact .inl (List.mem_singleton.mp mem ▸ outward)
    · exact named
    · exact fun name mem => named name (List.dropLast_subset _ mem)
  · intro name mem
    rcases List.mem_append.mp mem with mem | mem
    · exact named name mem
    · exact .inr (List.mem_singleton.mp mem ▸ ⟨nonempty, slashless, here, up⟩)

lemma named_start (path : FilePath) : (start path).Named := by
  rw [start]
  split <;> simp [Place.Named, Place.isOutward]

lemma named_destination (path : FilePath) : (destination path).Named := by
  have along : ∀ parts : List String, (∀ part ∈ parts, part ≠ "" ∧ '/' ∉ part.toList) →
      ∀ place : Place, place.Named → (parts.foldl step place).Named := by
    intro parts proper
    induction parts with
    | nil => exact fun _ named => named
    | cons part rest ih =>
      obtain ⟨⟨nonempty, slashless⟩, others⟩ := List.forall_mem_cons.mp proper
      exact fun place named => ih others _ (named_step named nonempty slashless)
  rw [destination_eq]
  exact along _ (fun part mem => slashless_of_mem_parts mem) _ (named_start path)

end FileTree

end ChartLift
