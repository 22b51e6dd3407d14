import ChartLift.Proofs.Path.Canonical
import ChartLift.Proofs.Rewrite.Walk
import ChartLift.Rewrite.Match
import Mathlib.Data.List.Forall2

/-!
# Patches of a path

What every entry of a tree has, every visited entry has (`entry_of_mem_walk`). The patches of a path
come from the entries that the walk visits at this very path (`mem_iff_of_patchesAt`), and there is
at least one (`ne_nil_of_patchesAt`). A path with entries comes to what these come to, one by one
(`meetings_eq_map`).
-/

namespace ChartLift.Rewrite

open Text (Bytes)
open Yaml.Layout (Node Entry Tree)

/-! ## Visited entries -/

/-- What the entries of a node have at every depth, a reached entry has. -/
lemma Reached.has {P : Entry → Prop} {node mapping : Node} {segments : List Segment}
    {around : List Node} {entry : Entry} (h : Reached node segments mapping around entry)
    (everywhere : node.Everywhere P) : P entry := by
  induction h with
  | entry mem =>
    cases everywhere with
    | mapping here inside => exact here _ mem
  | value mem _ _ ih =>
    cases everywhere with
    | mapping here inside => exact ih (inside _ mem)
  | item there _ ih =>
    cases everywhere with
    | sequence inside => exact ih (inside _ (List.mem_of_getElem? there))

/-- What the entries of a tree have at every depth, every visited entry has. -/
lemma entry_of_mem_walk {P : Entry → Prop} {tree : Tree} {place : Path} {entry : Entry}
    {flow : Bool} (h : ∀ root, tree.root = some root → root.Everywhere P)
    (mem : ⟨place, .entry entry flow⟩ ∈ walk tree) : P entry := by
  obtain ⟨mapping, around, ⟨root, rooted, reached⟩, -⟩ := mem_walk_iff.mp mem
  exact reached.has (h root rooted)

/-! ## Patches -/

/-- The span of an entry whose `:` is in the source, where no offset has to be clipped. -/
lemma entrySpan_eq {source : Bytes} {colon : Nat} (entry : Entry) (short : colon < source.length) :
    entrySpan source entry colon =
      (if beginsInline source colon && source[colon + 1]? == some 32 then colon + 1 else colon,
        max (triviaStart source (min (lineEnd source colon + 1) source.length)
            (entry.keySpan.start - lineStart source entry.keySpan.start)
            (if source.length ≤ entry.value.span.stop then source.length
              else lineStart source entry.value.span.stop))
          (min (lineEnd source colon + 1) source.length)) := by
  have nonempty : source.length ≠ 0 := by omega
  have same : min colon (source.length - 1) = colon := by omega
  simp only [entrySpan, nonempty, same, ↓reduceIte]

section Patches

variable {tree : Tree} {source : Bytes} {path : Path} {patches : List Patch} {patch : Patch}

/-- The patch for an entry whose `:` stands at an offset. -/
def entryPatch (source : Bytes) (path : Path) (entry : Entry) (colon : Nat) : Patch :=
  ⟨path.canonical, (entrySpan source entry colon).1, (entrySpan source entry colon).2⟩

/-- A visit comes to a patch if it is to an entry outside of braces whose `:` is known. -/
lemma meet_eq_ok_iff {visited : Visited} :
    meet path.canonical source visited = some (.ok patch) ↔
      ∃ entry colon, visited = .entry entry false ∧ entry.indicator = some colon ∧
        patch = entryPatch source path entry colon := by
  cases visited with
  | root | item | value => simp [meet]
  | entry entry flow =>
    cases flow with
    | true => simp [meet]
    | false =>
      cases indicator : entry.indicator with
      | none => simp [meet, indicator]
      | some colon => simp [meet, indicator, entryPatch, eq_comm]

/-- The visits at a path come to a patch for each entry visited there outside of braces whose `:` is
known. -/
lemma ok_mem_meetings_iff : .ok patch ∈ meetings tree source path ↔
    ∃ entry colon, ⟨path, .entry entry false⟩ ∈ walk tree ∧ entry.indicator = some colon ∧
      patch = entryPatch source path entry colon := by
  rw [meetings, List.mem_filterMap]
  constructor
  · rintro ⟨⟨place, visited⟩, mem, met⟩
    split at met
    · next same =>
      obtain ⟨entry, colon, rfl, known, rfl⟩ := meet_eq_ok_iff.mp met
      cases Path.canonical_injective same
      exact ⟨entry, colon, mem, known, rfl⟩
    · cases met
  · rintro ⟨entry, colon, mem, known, rfl⟩
    refine ⟨_, mem, ?_⟩
    rw [if_pos rfl]
    exact meet_eq_ok_iff.mpr ⟨entry, colon, rfl, known, rfl⟩

/-- The patches at a path are those that the visits there come to, of which there is one. -/
lemma patchesAt_eq_ok_iff : patchesAt tree source path = .ok patches ↔
    patches = (meetings tree source path).filterMap Except.toOption ∧ patches ≠ [] := by
  rw [patchesAt]
  generalize taken : List.filterMap _ (meetings tree source path) = found
  have same : (meetings tree source path).filterMap Except.toOption = found := by
    rw [← taken]
    refine List.filterMap_congr fun meeting _ => ?_
    cases meeting <;> rfl
  rw [same]
  cases found with
  | nil =>
    refine iff_of_false (fun h => ?_) (fun ⟨empty, filled⟩ => filled empty)
    simp only [List.isEmpty_nil, Bool.not_true, Bool.false_eq_true, ↓reduceIte] at h
    split at h <;> cases h
  | cons patch rest =>
    simp only [List.isEmpty_cons, Bool.not_false, ↓reduceIte, Except.ok.injEq]
    constructor
    · rintro rfl
      exact ⟨rfl, List.cons_ne_nil _ _⟩
    · rintro ⟨rfl, _⟩
      rfl

/-- A path that only refusals come of fails with the first of them. -/
lemma patchesAt_of_refused {refusal : Refusal} {rest : List (Except Refusal Patch)}
    (met : meetings tree source path = .error refusal :: rest)
    (refused : ∀ meeting ∈ rest, ∃ refusal, meeting = .error refusal) :
    patchesAt tree source path = .error (.unpatchable path.canonical refusal) := by
  rw [patchesAt, met]
  generalize taken : List.filterMap _ (.error refusal :: rest) = found
  have none : found = [] := by
    rw [← taken, List.filterMap_eq_nil_iff]
    intro meeting mem
    rcases List.mem_cons.mp mem with rfl | mem
    · rfl
    · obtain ⟨refusal, rfl⟩ := refused meeting mem
      rfl
  rw [none]
  rfl

lemma ne_nil_of_patchesAt (h : patchesAt tree source path = .ok patches) : patches ≠ [] :=
  (patchesAt_eq_ok_iff.mp h).2

/-- The patches at a path are those for the entries visited there outside of braces whose `:` is
known. -/
lemma mem_iff_of_patchesAt (h : patchesAt tree source path = .ok patches) :
    patch ∈ patches ↔
      ∃ entry colon, ⟨path, .entry entry false⟩ ∈ walk tree ∧ entry.indicator = some colon ∧
        patch = entryPatch source path entry colon := by
  obtain ⟨rfl, -⟩ := patchesAt_eq_ok_iff.mp h
  rw [← ok_mem_meetings_iff, List.mem_filterMap]
  constructor
  · rintro ⟨meeting, mem, taken⟩
    cases meeting with
    | error refusal => cases taken
    | ok patch' => cases taken; exact mem
  · intro mem
    exact ⟨_, mem, rfl⟩

end Patches

/-! ## Entries at a path -/

section Entries

variable {tree : Tree} {source : Bytes} {path : Path} {entry : Entry} {flow : Bool}

/-- The entries that the walk visits at a path, each with whether braces enclose its mapping. -/
def entriesAt (tree : Tree) (path : Path) : List (Entry × Bool) :=
  (walk tree).filterMap fun visit =>
    match visit.visited with
    | .entry entry flow => if visit.path = path then some (entry, flow) else none
    | _ => none

/-- What the visit to an entry comes to. -/
def meetEntry (source : Bytes) (path : Path) : Entry × Bool → Except Refusal Patch
  | (_, true) => .error .inFlow
  | (entry, false) =>
    match entry.indicator with
    | none => .error .noIndicator
    | some colon => .ok (entryPatch source path entry colon)

/-- The entries at a path are those visited there. -/
lemma mem_entriesAt_iff_mem_walk :
    (entry, flow) ∈ entriesAt tree path ↔ ⟨path, .entry entry flow⟩ ∈ walk tree := by
  rw [entriesAt, List.mem_filterMap]
  constructor
  · rintro ⟨⟨place, visited⟩, mem, taken⟩
    cases visited with
    | root | value | item => cases taken
    | entry entry' flow' =>
      dsimp only at taken
      split at taken
      · next same =>
        cases taken
        cases same
        exact mem
      · cases taken
  · intro mem
    exact ⟨_, mem, if_pos rfl⟩

/-- The entries at a path are those that its steps lead to, with the flags of their mappings. -/
lemma mem_entriesAt_iff : (entry, flow) ∈ entriesAt tree path ↔
    ∃ mapping around, Reaches tree path mapping around entry ∧ flowOf mapping = flow :=
  mem_entriesAt_iff_mem_walk.trans mem_walk_iff

/-- An entry stands at a field. -/
lemma last?_of_mem_entriesAt (mem : (entry, flow) ∈ entriesAt tree path) :
    ∃ name, path.last? = some (.field name) := by
  obtain ⟨mapping, around, ⟨root, -, reached⟩, -⟩ := mem_entriesAt_iff.mp mem
  obtain ⟨key, -, last⟩ := reached.getLast?
  exact ⟨key, last⟩

/-- Where there is an entry, the visits come to what the entries come to. -/
lemma meetings_eq_map (some : entriesAt tree path ≠ []) :
    meetings tree source path = (entriesAt tree path).map (meetEntry source path) := by
  obtain ⟨⟨entry, flow⟩, here⟩ := List.exists_mem_of_ne_nil _ some
  obtain ⟨name, last⟩ := last?_of_mem_entriesAt here
  rw [meetings, entriesAt, List.map_filterMap]
  refine List.filterMap_congr fun ⟨place, visited⟩ mem => ?_
  have fits := fits_of_mem_walk mem
  have same : place.canonical = path.canonical ↔ place = path :=
    ⟨fun h => Path.canonical_injective h, fun h => h ▸ rfl⟩
  simp only [same]
  -- neither the root nor an item stands at a field
  cases visited with
  | root node =>
    have away : place ≠ path := by
      rintro rfl
      rw [show place = .root from fits] at last
      cases last
    rw [if_neg away]
    rfl
  | value node => simp [meet]
  | item node flow =>
    have away : place ≠ path := by
      rintro rfl
      obtain ⟨position, at'⟩ : ∃ position, place.last? = .some (.index position) := fits
      rw [at'] at last
      cases last
    rw [if_neg away]
    rfl
  | entry entry flow =>
    by_cases here : place = path
    · cases flow with
      | true => simp [here, meet, meetEntry]
      | false =>
        cases indicator : entry.indicator with
        | none => simp [here, meet, meetEntry, indicator]
        | some colon => simp [here, meet, meetEntry, indicator, entryPatch]
    · simp [here]

/-- A path none of whose entries is refused has one patch for each of them. -/
lemma patchesAt_of_entries_taken (some : entriesAt tree path ≠ [])
    (taken : ∀ entry ∈ entriesAt tree path, ∃ patch, meetEntry source path entry = .ok patch) :
    ∃ patches, patchesAt tree source path = .ok patches ∧
      List.Forall₂ (fun entry patch => meetEntry source path entry = .ok patch)
        (entriesAt tree path) patches := by
  have one_by_one : ∀ entries : List (Entry × Bool),
      (∀ entry ∈ entries, ∃ patch, meetEntry source path entry = .ok patch) →
      ∃ patches, (entries.map (meetEntry source path)).filterMap Except.toOption = patches ∧
        List.Forall₂ (fun entry patch => meetEntry source path entry = .ok patch) entries
          patches := by
    intro entries taken
    induction entries with
    | nil => exact ⟨[], rfl, .nil⟩
    | cons entry rest ih =>
      obtain ⟨⟨patch, met⟩, others⟩ := List.forall_mem_cons.mp taken
      obtain ⟨patches, rfl, each⟩ := ih others
      refine ⟨patch :: _, ?_, .cons met each⟩
      rw [List.map_cons, met, List.filterMap_cons]
      rfl
  obtain ⟨patches, found, each⟩ := one_by_one _ taken
  refine ⟨patches, patchesAt_eq_ok_iff.mpr ⟨?_, ?_⟩, each⟩
  · rw [meetings_eq_map some, found]
  · rintro rfl
    exact some (List.forall₂_nil_right_iff.mp each)

/-- A path whose entries are all refused fails as the first of them. -/
lemma patchesAt_of_entries_refused {first : Entry × Bool} {rest : List (Entry × Bool)}
    {refusal : Refusal} (entries : entriesAt tree path = first :: rest)
    (met : meetEntry source path first = .error refusal)
    (refused : ∀ other ∈ rest, ∃ refusal, meetEntry source path other = .error refusal) :
    patchesAt tree source path = .error (.unpatchable path.canonical refusal) := by
  have mapped : meetings tree source path = .error refusal :: rest.map (meetEntry source path) := by
    rw [meetings_eq_map (by simp [entries]), entries, List.map_cons, met]
  refine patchesAt_of_refused mapped fun meeting mem => ?_
  obtain ⟨other, member, rfl⟩ := List.mem_map.mp mem
  exact refused other member

end Entries

end ChartLift.Rewrite
