import ChartLift.Proofs.Cache.Requests
import Mathlib.Data.List.Induction
import Mathlib.Logic.Function.Basic

/-!
# Calls for one entry, side by side

A call for bytes is taken as the steps that it makes among the files (`Call.step`); alone they come to
what `Cache.fetch` gives (`Race.play_alone`). Of any number of calls for one entry that take turns in any
order, at most one makes the entry, and who is given bytes is given all that this call brought, unless it
read between the making of the entry and the writing of it, when nothing is in there yet
(`Race.given_of_shared`). That there is such a turn shows `Race.given_nothing`.
-/

namespace ChartLift.Cache

open Text (Bytes)
open FileTree (destination)

/-- A call for bytes. -/
structure Call where
  cache : Cache
  name : String
  data : Bytes

/-- How far a call has come. -/
inductive Stage where
  /-- It is to ask whether its entry is there. -/
  | asks
  /-- It is to look whether its bytes are worth a copy, there being no entry. -/
  | checks (entry : FilePath)
  /-- It is to make the directories. -/
  | prepares (entry : FilePath)
  /-- It is to make the entry, with nothing in it. -/
  | creates (entry : FilePath)
  /-- It has made the entry and is to write its bytes there. -/
  | fills (place : Place)
  /-- It is to read the entry. -/
  | reads (entry : FilePath)
  | returned (result : Except RunFault Bytes)

/-- The bytes that a call has been given. -/
def Stage.given? : Stage → Option Bytes
  | .returned (.ok data) => some data
  | _ => none

/-- The next step of a call. -/
def Call.step (call : Call) (files : FileTree) : Stage → Stage × FileTree
  | .asks =>
    match call.cache.entry? call.name call.data with
    | none => (.returned (.ok call.data), files)
    | some entry => (if files.contains entry then .reads entry else .checks entry, files)
  | .checks entry =>
    (if isWorthy call.data then .prepares entry else .returned (.error (.notYaml call.name)), files)
  | .prepares entry =>
    match files.makeDirectories call.cache.directory with
    | .error fault => (.returned (.error (.cacheNotMade call.cache.directory fault)), files)
    | .ok files => (.creates entry, files)
  | .creates entry =>
    match files.create entry [] with
    | .ok files => (.fills (destination entry), files)
    | .error .alreadyThere => (.reads entry, files)
    | .error fault => (.returned (.error (.copyNotMade entry fault)), files)
  | .fills place => (.returned (.ok call.data), files.put place (.file call.data))
  | .reads entry => (.returned (readEntry entry files), files)
  | .returned result => (.returned result, files)

/-! ## One step -/

/-- A stage of a call that is about an entry which it has not made, with bytes of some kind only. -/
inductive Waiting (entry : FilePath) (Allowed : Bytes → Prop) : Stage → Prop where
  | asks : Waiting entry Allowed .asks
  | checks : Waiting entry Allowed (.checks entry)
  | prepares : Waiting entry Allowed (.prepares entry)
  | creates : Waiting entry Allowed (.creates entry)
  | reads : Waiting entry Allowed (.reads entry)
  | given {data} (allowed : Allowed data) : Waiting entry Allowed (.returned (.ok data))
  | failed {fault} : Waiting entry Allowed (.returned (.error fault))

variable {call : Call} {files : FileTree} {entry : FilePath} {bytes : Bytes} {stage : Stage}
  {Allowed Allowed' : Bytes → Prop}

lemma Waiting.ne_fills (waiting : Waiting entry Allowed stage) (place : Place) : stage ≠ .fills place := by
  rintro rfl
  cases waiting

lemma Waiting.mono (waiting : Waiting entry Allowed stage) (more : ∀ bytes, Allowed bytes → Allowed' bytes) :
    Waiting entry Allowed' stage := by
  cases waiting with
  | asks => exact .asks
  | checks => exact .checks
  | prepares => exact .prepares
  | creates => exact .creates
  | reads => exact .reads
  | given allowed => exact .given (more _ allowed)
  | failed => exact .failed

lemma Waiting.allowed (waiting : Waiting entry Allowed stage) (returned : stage.given? = some bytes) :
    Allowed bytes := by
  cases waiting with
  | given allowed =>
    obtain rfl := Option.some.inj returned
    exact allowed
  | _ => cases returned

/-- All that a step of a call can do that has not made the entry: it changes no file there and may be
given what it reads, or it makes the entry where none was. -/
lemma step_cases (files : FileTree) (shared : call.cache.entry? call.name call.data = some entry)
    (waiting : Waiting entry Allowed stage) :
    ((call.step files stage).2.data? (destination entry) = files.data? (destination entry) ∧
      Waiting entry (fun bytes => Allowed bytes ∨
        stage = .reads entry ∧ files.data? (destination entry) = some bytes)
        (call.step files stage).1) ∨
    files.data? (destination entry) = none ∧
      (call.step files stage).2.data? (destination entry) = some [] ∧
      (call.step files stage).1 = .fills (destination entry) := by
  cases waiting with
  | asks =>
    rw [Call.step, shared]
    dsimp only
    split
    · exact .inl ⟨rfl, .reads⟩
    · exact .inl ⟨rfl, .checks⟩
  | checks =>
    rw [Call.step]
    split
    · exact .inl ⟨rfl, .prepares⟩
    · exact .inl ⟨rfl, .failed⟩
  | prepares =>
    rw [Call.step]
    split
    · exact .inl ⟨rfl, .failed⟩
    · rename_i made
      exact .inl ⟨FileTree.makeDirectories_data? made _, .creates⟩
  | creates =>
    rw [Call.step]
    split
    · rename_i created
      right
      refine ⟨?_, ?_, rfl⟩
      · rw [FileTree.data?, (FileTree.create_eq created).1]
      · rw [FileTree.create_data? created, if_pos rfl]
    · exact .inl ⟨rfl, .reads⟩
    · exact .inl ⟨rfl, .failed⟩
  | reads =>
    rw [Call.step]
    refine .inl ⟨rfl, ?_⟩
    cases read : readEntry entry files with
    | error fault => exact .failed
    | ok bytes => exact .given (.inr ⟨rfl, FileTree.read_data? (readEntry_eq_ok_iff.mp read)⟩)
  | given allowed => exact .inl ⟨rfl, .given (.inl allowed)⟩
  | failed => exact .inl ⟨rfl, .failed⟩

/-! ## Any turns -/

/-- Calls side by side over the same files, each of them at some stage. -/
structure Race (ι : Type) where
  files : FileTree
  stages : ι → Stage

namespace Race

variable {ι : Type} [DecidableEq ι]

/-- Calls that are all to begin. -/
def start (files : FileTree) : Race ι := ⟨files, fun _ => .asks⟩

/-- One call makes a step. -/
def advance (calls : ι → Call) (race : Race ι) (i : ι) : Race ι :=
  let stepped := (calls i).step race.files (race.stages i)
  ⟨stepped.2, Function.update race.stages i stepped.1⟩

/-- Calls make steps in some order. -/
def play (calls : ι → Call) (race : Race ι) (turns : List ι) : Race ι :=
  turns.foldl (advance calls) race

/-- That a call makes the entry in the course of some turns. -/
def Makes (calls : ι → Call) (files : FileTree) (turns : List ι) (i : ι) : Prop :=
  ∃ earlier later place, turns = earlier ++ later ∧
    ((start files).play calls earlier).stages i = .fills place

/-- That a call reads an entry that another one has made but not written yet. -/
def ReadsEarly (calls : ι → Call) (files : FileTree) (turns : List ι) (maker i : ι) : Prop :=
  ∃ earlier later entry place, turns = earlier ++ i :: later ∧
    ((start files).play calls earlier).stages i = .reads entry ∧
    ((start files).play calls earlier).stages maker = .fills place

variable {calls : ι → Call} {turns : List ι} {i maker : ι}

lemma play_concat (calls : ι → Call) (race : Race ι) (turns : List ι) (i : ι) :
    race.play calls (turns ++ [i]) = (race.play calls turns).advance calls i := by
  rw [play, List.foldl_concat]
  rfl

lemma stages_advance_self (race : Race ι) :
    (race.advance calls i).stages i = ((calls i).step race.files (race.stages i)).1 :=
  Function.update_self _ _ _

lemma stages_advance_of_ne (race : Race ι) {j : ι} (ne : j ≠ i) :
    (race.advance calls i).stages j = race.stages j :=
  Function.update_of_ne ne _ _

lemma makes_concat_iff {j : ι} : Makes calls files (turns ++ [i]) j ↔ Makes calls files turns j ∨
    ∃ place, ((start files).play calls (turns ++ [i])).stages j = .fills place := by
  constructor
  · rintro ⟨earlier, later, place, split, fills⟩
    rcases List.eq_nil_or_concat later with rfl | ⟨later, last, rfl⟩
    · rw [List.append_nil] at split
      exact .inr ⟨place, split ▸ fills⟩
    · rw [List.concat_eq_append, ← List.append_assoc] at split
      exact .inl ⟨earlier, later, place, (List.append_inj' split rfl).1, fills⟩
  · rintro (⟨earlier, later, place, rfl, fills⟩ | ⟨place, fills⟩)
    · exact ⟨earlier, later ++ [i], place, List.append_assoc _ _ _, fills⟩
    · exact ⟨turns ++ [i], [], place, (List.append_nil _).symm, fills⟩

lemma ReadsEarly.concat {j : ι} (early : ReadsEarly calls files turns maker i) :
    ReadsEarly calls files (turns ++ [j]) maker i := by
  obtain ⟨earlier, later, entry, place, rfl, reads, fills⟩ := early
  exact ⟨earlier, later ++ [j], entry, place, by simp, reads, fills⟩

/-- What the calls for one entry have come to after some turns. -/
inductive Standing (calls : ι → Call) (files : FileTree) (entry : FilePath) (turns : List ι) : Prop where
  /-- Nobody has made the entry, and nobody has been given bytes. -/
  | unmade (nobody : ∀ i, ¬ Makes calls files turns i)
      (free : ((start files).play calls turns).files.data? (destination entry) = none)
      (others : ∀ i, Waiting entry (fun _ => False) (((start files).play calls turns).stages i))
  /-- One call has made the entry and not written it yet. -/
  | unwritten (maker : ι) (only : ∀ i, Makes calls files turns i ↔ i = maker)
      (empty : ((start files).play calls turns).files.data? (destination entry) = some [])
      (fills : ((start files).play calls turns).stages maker = .fills (destination entry))
      (others : ∀ i, i ≠ maker →
        Waiting entry (fun bytes => bytes = [] ∧ ReadsEarly calls files turns maker i)
          (((start files).play calls turns).stages i))
  /-- One call has made and written the entry. -/
  | written (maker : ι) (only : ∀ i, Makes calls files turns i ↔ i = maker)
      (full : ((start files).play calls turns).files.data? (destination entry) =
        some (calls maker).data)
      (done : ((start files).play calls turns).stages maker = .returned (.ok (calls maker).data))
      (others : ∀ i, i ≠ maker →
        Waiting entry (fun bytes => bytes = (calls maker).data ∨
          bytes = [] ∧ ReadsEarly calls files turns maker i)
          (((start files).play calls turns).stages i))

lemma standing_start (free : files.data? (destination entry) = none) :
    Standing calls files entry [] := by
  refine .unmade (fun i makes => ?_) free fun i => .asks
  obtain ⟨earlier, later, place, split, fills⟩ := makes
  obtain ⟨rfl, rfl⟩ := List.append_eq_nil_iff.mp split.symm
  cases fills

/-- After one more turn the calls that have not made the entry are where they were, but for the one whose
turn it was. -/
lemma waiting_concat (Other : ι → Prop) {Allowed : ι → Bytes → Prop} (Allowed' : ι → Bytes → Prop)
    (others : ∀ j, Other j → Waiting entry (Allowed j) (((start files).play calls turns).stages j))
    (more : ∀ j bytes, Allowed j bytes → Allowed' j bytes)
    (turn : Other i → Waiting entry (Allowed' i)
      ((calls i).step ((start files).play calls turns).files
        (((start files).play calls turns).stages i)).1) :
    ∀ j, Other j →
      Waiting entry (Allowed' j) (((start files).play calls (turns ++ [i])).stages j) := by
  intro j other
  rw [play_concat]
  by_cases here : j = i
  · subst here
    rw [stages_advance_self]
    exact turn other
  · rw [stages_advance_of_ne _ here]
    exact (others j other).mono (more j)

/-- Who has not made the entry and waits after one more turn has not made it then either. -/
lemma makes_concat (Maker : ι → Prop) {Allowed : ι → Bytes → Prop}
    (only : ∀ j, Makes calls files turns j ↔ Maker j)
    (others : ∀ j, ¬ Maker j →
      Waiting entry (Allowed j) (((start files).play calls (turns ++ [i])).stages j)) (j : ι) :
    Makes calls files (turns ++ [i]) j ↔ Maker j := by
  rw [makes_concat_iff, only]
  refine ⟨fun makes => ?_, .inl⟩
  rcases makes with before | ⟨place, fills⟩
  · exact before
  · by_contra other
    exact (others j other).ne_fills place fills

section

variable (shared : ∀ i, (calls i).cache.entry? (calls i).name (calls i).data = some entry)
include shared

/-- A call whose turn it is makes the entry, or all remains as it was. -/
lemma standing_of_unmade (nobody : ∀ i, ¬ Makes calls files turns i)
    (free : ((start files).play calls turns).files.data? (destination entry) = none)
    (others : ∀ i, Waiting entry (fun _ => False) (((start files).play calls turns).stages i)) (i : ι) :
    Standing calls files entry (turns ++ [i]) := by
  have next := play_concat calls (start files) turns i
  rcases step_cases ((start files).play calls turns).files (shared i) (others i) with
    ⟨same, waiting⟩ | ⟨-, empty, fills⟩
  · have others' := waiting_concat (i := i) (fun _ => True) (fun _ _ => False) (fun j _ => others j)
      (fun _ _ never => never) fun _ => waiting.mono fun bytes given => by
        rcases given with never | ⟨-, read⟩
        · exact never
        · rw [free] at read
          cases read
    have only := makes_concat (fun _ => False) (fun j => iff_false_intro (nobody j))
      fun j _ => others' j trivial
    refine .unmade (fun j => (only j).mp) ?_ fun j => others' j trivial
    rw [next]
    exact same.trans free
  · have made : ((start files).play calls (turns ++ [i])).stages i = .fills (destination entry) := by
      rw [next, stages_advance_self, fills]
    have others' := waiting_concat (i := i) (· ≠ i)
      (fun j bytes => bytes = [] ∧ ReadsEarly calls files (turns ++ [i]) i j) (fun j _ => others j)
      (fun _ _ never => never.elim) fun here => absurd rfl here
    refine .unwritten i (fun j => ⟨fun makes => ?_, ?_⟩) (by rw [next]; exact empty) made others'
    · rcases makes_concat_iff.mp makes with before | ⟨place, fills⟩
      · exact absurd before (nobody j)
      · by_contra other
        exact (others' j other).ne_fills place fills
    · rintro rfl
      exact makes_concat_iff.mpr (.inr ⟨_, made⟩)

/-- The call that has made the entry writes it, or another one finds nothing in there. -/
lemma standing_of_unwritten (only : ∀ i, Makes calls files turns i ↔ i = maker)
    (empty : ((start files).play calls turns).files.data? (destination entry) = some [])
    (fills : ((start files).play calls turns).stages maker = .fills (destination entry))
    (others : ∀ i, i ≠ maker →
      Waiting entry (fun bytes => bytes = [] ∧ ReadsEarly calls files turns maker i)
        (((start files).play calls turns).stages i)) (i : ι) :
    Standing calls files entry (turns ++ [i]) := by
  have next := play_concat calls (start files) turns i
  by_cases turn : i = maker
  · subst turn
    have others' := waiting_concat (i := i) (· ≠ i) (fun j bytes => bytes = (calls i).data ∨
        bytes = [] ∧ ReadsEarly calls files (turns ++ [i]) i j) others
      (fun _ _ given => .inr ⟨given.1, given.2.concat⟩) fun here => absurd rfl here
    refine .written i (makes_concat _ only others') ?_ ?_ others'
    · rw [next, advance, fills]
      have standing := FileTree.data?_eq_some_iff.mp empty
      exact (FileTree.put_file_data? (by simp [standing]) _).trans (if_pos rfl)
    · rw [next, stages_advance_self, fills]
      rfl
  · rcases step_cases ((start files).play calls turns).files (shared i) (others i turn) with
      ⟨same, waiting⟩ | ⟨free, -⟩
    · have others' := waiting_concat (i := i) (· ≠ maker)
        (fun j bytes => bytes = [] ∧ ReadsEarly calls files (turns ++ [i]) maker j) others
        (fun _ _ given => ⟨given.1, given.2.concat⟩) fun _ => waiting.mono fun bytes given => by
          rcases given with before | ⟨reads, read⟩
          · exact ⟨before.1, before.2.concat⟩
          · exact ⟨Option.some.inj (read.symm.trans empty), turns, [], entry, _, rfl, reads, fills⟩
      refine .unwritten maker (makes_concat _ only others') ?_ ?_ others'
      · rw [next]
        exact same.trans empty
      · rw [next, stages_advance_of_ne _ (Ne.symm turn), fills]
    · cases free.symm.trans empty

/-- The call that has made and written the entry does nothing more, and any other one finds all bytes. -/
lemma standing_of_written (only : ∀ i, Makes calls files turns i ↔ i = maker)
    (full : ((start files).play calls turns).files.data? (destination entry) =
      some (calls maker).data)
    (done : ((start files).play calls turns).stages maker = .returned (.ok (calls maker).data))
    (others : ∀ i, i ≠ maker →
      Waiting entry (fun bytes => bytes = (calls maker).data ∨
        bytes = [] ∧ ReadsEarly calls files turns maker i)
        (((start files).play calls turns).stages i)) (i : ι) :
    Standing calls files entry (turns ++ [i]) := by
  have next := play_concat calls (start files) turns i
  by_cases turn : i = maker
  · subst turn
    have others' := waiting_concat (i := i) (· ≠ i) (fun j bytes => bytes = (calls i).data ∨
        bytes = [] ∧ ReadsEarly calls files (turns ++ [i]) i j) others
      (fun _ _ given => given.imp id fun early => ⟨early.1, early.2.concat⟩) fun here =>
        absurd rfl here
    refine .written i (makes_concat _ only others') ?_ ?_ others'
    · rw [next, advance, done]
      exact full
    · rw [next, stages_advance_self, done]
      rfl
  · rcases step_cases ((start files).play calls turns).files (shared i) (others i turn) with
      ⟨same, waiting⟩ | ⟨free, -⟩
    · have others' := waiting_concat (i := i) (· ≠ maker) (fun j bytes => bytes = (calls maker).data ∨
          bytes = [] ∧ ReadsEarly calls files (turns ++ [i]) maker j) others
        (fun _ _ given => given.imp id fun early => ⟨early.1, early.2.concat⟩) fun _ =>
        waiting.mono fun bytes given => by
          rcases given with before | ⟨-, read⟩
          · exact before.imp id fun early => ⟨early.1, early.2.concat⟩
          · exact .inl (Option.some.inj (read.symm.trans full))
      refine .written maker (makes_concat _ only others') ?_ ?_ others'
      · rw [next]
        exact same.trans full
      · rw [next, stages_advance_of_ne _ (Ne.symm turn), done]
    · cases free.symm.trans full

/-- One more turn leaves calls for one entry in good standing. -/
lemma Standing.concat (standing : Standing calls files entry turns) (i : ι) :
    Standing calls files entry (turns ++ [i]) := by
  cases standing with
  | unmade nobody free others => exact standing_of_unmade shared nobody free others i
  | unwritten maker only empty fills others => exact standing_of_unwritten shared only empty fills others i
  | written maker only full done others => exact standing_of_written shared only full done others i

/-- Whatever the order of the turns is, calls for one entry are in good standing. -/
lemma standing (free : files.data? (destination entry) = none) (turns : List ι) :
    Standing calls files entry turns := by
  induction turns using List.reverseRecOn with
  | nil => exact standing_start free
  | append_singleton turns i ih => exact ih.concat shared i

end

/-- Of calls for one entry that is not there at first, in any order of their steps: where one of them is
given bytes there is a single call that has made the entry, and the bytes are all that this call brought,
unless they were read before it wrote them; then there are none. -/
theorem given_of_shared (calls : ι → Call) (files : FileTree) (entry : FilePath)
    (shared : ∀ i, (calls i).cache.entry? (calls i).name (calls i).data = some entry)
    (free : files.data? (destination entry) = none) (turns : List ι) (i : ι) (bytes : Bytes)
    (given : (((start files).play calls turns).stages i).given? = some bytes) :
    ∃ maker, (∀ other, Makes calls files turns other ↔ other = maker) ∧
      (bytes = (calls maker).data ∨ bytes = [] ∧ ReadsEarly calls files turns maker i) := by
  cases standing shared free turns with
  | unmade nobody _ others => exact ((others i).allowed given).elim
  | unwritten maker only _ fills others =>
    have turn : i ≠ maker := by
      rintro rfl
      rw [fills] at given
      cases given
    exact ⟨maker, only, .inr ((others i turn).allowed given)⟩
  | written maker only _ done others =>
    refine ⟨maker, only, ?_⟩
    by_cases turn : i = maker
    · subst turn
      rw [done] at given
      exact .inl (Option.some.inj given).symm
    · exact (others i turn).allowed given

/-- Two calls for one template. -/
def pair : Bool → Call :=
  fun _ => ⟨⟨⟨".helm-dump"⟩, .byName⟩, "templates/a.yaml", Text.bytes "a: 1\n"⟩

lemma shared_pair (i : Bool) : (pair i).cache.entry? (pair i).name (pair i).data =
    some ⟨".helm-dump/templates_a_yaml"⟩ := by
  cases i <;> decide

/-- A call that begins after the other one has written the entry is given what that one brought. -/
theorem given_of_shared_pair :
    let turns := List.replicate 5 false ++ [true, true]
    (∀ i, (pair i).cache.entry? (pair i).name (pair i).data = some ⟨".helm-dump/templates_a_yaml"⟩) ∧
      FileTree.empty.data? (destination ⟨".helm-dump/templates_a_yaml"⟩) = none ∧
      (((start .empty).play pair turns).stages true).given? = some (Text.bytes "a: 1\n") ∧
      ∃ maker, (∀ other, Makes pair .empty turns other ↔ other = maker) ∧
        (Text.bytes "a: 1\n" = (pair maker).data ∨
          Text.bytes "a: 1\n" = [] ∧ ReadsEarly pair .empty turns maker true) := by
  intro turns
  have free : FileTree.empty.data? (destination ⟨".helm-dump/templates_a_yaml"⟩) = none := by
    decide +kernel
  have given : (((start .empty).play pair turns).stages true).given? = some (Text.bytes "a: 1\n") := by
    decide +kernel
  exact ⟨shared_pair, free, given, given_of_shared pair .empty _ shared_pair free turns true _ given⟩

/-- A call that finds the entry before it has been written is given nothing, while the one that has made
the entry brought bytes. -/
theorem given_nothing :
    let turns := List.replicate 4 false ++ [true, true] ++ [false]
    (∀ i, (pair i).cache.entry? (pair i).name (pair i).data = some ⟨".helm-dump/templates_a_yaml"⟩) ∧
      FileTree.empty.data? (destination ⟨".helm-dump/templates_a_yaml"⟩) = none ∧
      Makes pair .empty turns false ∧ (pair false).data = Text.bytes "a: 1\n" ∧
      (((start .empty).play pair turns).stages false).given? = some (Text.bytes "a: 1\n") ∧
      (((start .empty).play pair turns).stages true).given? = some [] := by
  refine ⟨shared_pair, by decide +kernel, ?_, rfl, by decide +kernel, by decide +kernel⟩
  refine ⟨List.replicate 4 false, [true, true, false], destination ⟨".helm-dump/templates_a_yaml"⟩,
    rfl, ?_⟩
  have fills : (match ((start .empty).play pair (List.replicate 4 false)).stages false with
      | .fills place => some place
      | _ => none) = some (destination ⟨".helm-dump/templates_a_yaml"⟩) := by
    decide +kernel
  generalize ((start .empty).play pair (List.replicate 4 false)).stages false = stage at fills ⊢
  cases stage with
  | fills place => exact congrArg Stage.fills (Option.some.inj fills)
  | _ => cases fills

/-! ## Calls by themselves -/

/-- Whether an entry can be made does not hang on what is written there. -/
lemma create_eq_map (files : FileTree) (entry : FilePath) (data : Bytes) :
    files.create entry data =
      (files.create entry []).map fun _ => files.put (destination entry) (.file data) := by
  rw [FileTree.create, FileTree.create]
  cases resolved : files.resolve entry with
  | error fault => rfl
  | ok place =>
    obtain rfl := FileTree.eq_destination resolved
    dsimp only
    cases files.at? (destination entry) <;> rfl

/-- What is written last is what is there. -/
lemma put_put (files : FileTree) (place : Place) (first last : FileNode) :
    (files.put place first).put place last = files.put place last := by
  simp [FileTree.put]

/-- Five steps in a row bring a call to its end. -/
lemma steps_eq (call : Call) (files : FileTree) :
    (fun now : Stage × FileTree => call.step now.2 now.1)^[5] (.asks, files) =
      (.returned (call.cache.fetch call.name call.data files).data,
        (call.cache.fetch call.name call.data files).files) := by
  delta fetch
  cases addresses : call.cache.entry? call.name call.data with
  | none => simp [Call.step, addresses]
  | some entry =>
    cases there : files.contains entry with
    | true => simp [Call.step, addresses, there]
    | false =>
      cases worthy : isWorthy call.data with
      | false => simp [Call.step, addresses, there, worthy]
      | true =>
        cases made : files.makeDirectories call.cache.directory with
        | error fault => simp [Call.step, addresses, there, worthy, made]
        | ok middle =>
          simp only [store, create_eq_map middle entry call.data]
          cases created : middle.create entry [] with
          | ok after =>
            obtain ⟨-, rfl⟩ := FileTree.create_eq created
            simp [Call.step, addresses, there, worthy, made, created, put_put, Except.map]
          | error fault =>
            cases fault <;>
              simp [Call.step, addresses, there, worthy, made, created, Except.map]

/-- A call that is never interrupted comes to what looking its bytes up comes to. -/
theorem play_alone (calls : ι → Call) (race : Race ι) (i : ι) (begins : race.stages i = .asks) :
    let fetched := (calls i).cache.fetch (calls i).name (calls i).data race.files
    (race.play calls (List.replicate 5 i)).stages i = .returned fetched.data ∧
      (race.play calls (List.replicate 5 i)).files = fetched.files := by
  intro fetched
  have along : ∀ n,
      ((race.play calls (List.replicate n i)).stages i, (race.play calls (List.replicate n i)).files) =
        (fun now : Stage × FileTree => (calls i).step now.2 now.1)^[n] (race.stages i, race.files) := by
    intro n
    induction n with
    | zero => rfl
    | succ n ih =>
      rw [List.replicate_succ', play_concat, stages_advance_self, Function.iterate_succ_apply', ← ih]
      rfl
  have five := along 5
  rw [begins, steps_eq] at five
  exact ⟨congrArg Prod.fst five, congrArg Prod.snd five⟩

end Race

end ChartLift.Cache
