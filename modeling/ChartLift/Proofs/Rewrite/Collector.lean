import ChartLift.Proofs.Rewrite.Match

/-!
# The matcher as a pass that collects

A traversal moves one place along with what its visitor keeps; it visits what the walk lists, and
comes back to where it began (`traverseBelow_eq`). A matcher is such a visitor. It compares places
as they are written, pushes patches to a collection that may have some already, counts them, and
keeps the first refusal. A pass comes to one patch for each entry at the very path that can be
rewritten, in the order of the document, or leaves the collection as it was (`collect_eq`).
-/

namespace ChartLift.Rewrite

open Text (Bytes)
open Yaml.Layout (Node Entry EntryOf Tree)

/-! ## Traversals -/

section Traversals

variable {σ : Type} (visit : σ → Visit → σ)

mutual

/-- A traversal below a node: the place it has come to and what the visitor keeps. -/
def traverseBelow : Node → Path × σ → Path × σ
  | .scalar _ _, reached => reached
  | .alias _, reached => reached
  | .sequence _ flow items, reached => traverseItems flow 0 items reached
  | .mapping _ flow entries, reached => traverseEntries flow entries reached

/-- A traversal of items. -/
def traverseItems (flow : Bool) (position : Nat) : List Node → Path × σ → Path × σ
  | [], reached => reached
  | item :: rest, (place, state) =>
    let place := place.child (.index position)
    let state := visit state ⟨place, .item item flow⟩
    let (place, state) := traverseBelow item (place, state)
    traverseItems flow (position + 1) rest (place.parent, state)

/-- A traversal of entries. -/
def traverseEntries (flow : Bool) : List (EntryOf Node) → Path × σ → Path × σ
  | [], reached => reached
  | ⟨none, _, _, _⟩ :: rest, reached => traverseEntries flow rest reached
  | ⟨some key, keySpan, indicator, value⟩ :: rest, (place, state) =>
    let place := place.child (.field key)
    let state := visit state ⟨place, .entry ⟨some key, keySpan, indicator, value⟩ flow⟩
    let state := visit state ⟨place, .value value⟩
    let (place, state) := traverseBelow value (place, state)
    traverseEntries flow rest (place.parent, state)

end

/-- A traversal of a tree. -/
def traverse (tree : Tree) (state : σ) : σ :=
  match tree.root with
  | none => state
  | some root => (traverseBelow visit root (.root, visit state ⟨.root, .root root⟩)).2

lemma parent_child (place : Path) (segment : Segment) : (place.child segment).parent = place := by
  rw [Path.parent, Path.child, List.dropLast_concat]

mutual

/-- A traversal below a node makes the visits there and comes back to the place of the node. -/
lemma traverseBelow_eq (place : Path) (state : σ) (node : Node) :
    traverseBelow visit node (place, state) = (place, (below place node).foldl visit state) :=
  match node with
  | .scalar _ _ => rfl
  | .alias _ => rfl
  | .sequence _ flow items => traverseItems_eq place state flow 0 items
  | .mapping _ flow entries => traverseEntries_eq place state flow entries

lemma traverseItems_eq (place : Path) (state : σ) (flow : Bool) (position : Nat)
    (items : List Node) : traverseItems visit flow position items (place, state) =
      (place, (belowItems place flow position items).foldl visit state) :=
  match items with
  | [] => rfl
  | item :: rest => by
    rw [traverseItems, belowItems, traverseBelow_eq, List.foldl_cons, List.foldl_append]
    simp only [parent_child]
    exact traverseItems_eq place _ flow (position + 1) rest

lemma traverseEntries_eq (place : Path) (state : σ) (flow : Bool)
    (entries : List (EntryOf Node)) : traverseEntries visit flow entries (place, state) =
      (place, (belowEntries place flow entries).foldl visit state) :=
  match entries with
  | [] => rfl
  | ⟨none, _, _, _⟩ :: rest => traverseEntries_eq place state flow rest
  | ⟨some key, keySpan, indicator, value⟩ :: rest => by
    rw [traverseEntries, belowEntries, traverseBelow_eq, List.foldl_cons, List.foldl_cons,
      List.foldl_append]
    simp only [parent_child]
    exact traverseEntries_eq place _ flow rest

end

/-- A traversal of a tree makes the visits of the walk. -/
lemma traverse_eq (tree : Tree) (state : σ) :
    traverse visit tree state = (walk tree).foldl visit state := by
  rw [traverse, walk]
  cases tree.root with
  | none => rfl
  | some root => exact congrArg Prod.snd (traverseBelow_eq visit _ _ root)

end Traversals

/-! ## The matcher -/

/-- What a matcher keeps on its pass. -/
structure Matcher where
  collected : List Patch
  /-- How many patches the pass has collected itself. -/
  matched : Nat
  /-- Why the first node at the target that has no patch has none. -/
  refused : Option Refusal
  deriving DecidableEq, Repr

namespace Matcher

/-- A matcher before its pass. -/
def start (collected : List Patch) : Matcher :=
  ⟨collected, 0, none⟩

/-- A matcher that a node is refused to. -/
def refuse (matcher : Matcher) (refusal : Refusal) : Matcher :=
  { matcher with refused := some (matcher.refused.getD refusal) }

/-- A matcher with one more patch. -/
def push (matcher : Matcher) (patch : Patch) : Matcher :=
  { matcher with collected := matcher.collected ++ [patch], matched := matcher.matched + 1 }

/-- A matcher behind a visit. -/
def visit (target : String) (source : Bytes) (matcher : Matcher) (visit : Visit) : Matcher :=
  match visit.visited with
  | .value _ => matcher
  | visited =>
    if visit.path.canonical ≠ target then matcher
    else
      match visited with
      | .value _ => matcher
      | .root _ => matcher.refuse .isRoot
      | .item _ _ => matcher.refuse .isItem
      | .entry _ true => matcher.refuse .inFlow
      | .entry entry false =>
        match entry.indicator with
        | none => matcher.refuse .noIndicator
        | some colon =>
          let (keep, resume) := entrySpan source entry colon
          matcher.push ⟨target, keep, resume⟩

/-- What a matcher comes to. -/
def outcome (target : String) (matcher : Matcher) : Except MatchFault Nat :=
  if 0 < matcher.matched then .ok matcher.matched
  else
    match matcher.refused with
    | some refusal => .error (.unpatchable target refusal)
    | none => .error (.notFound target)

end Matcher

/-- A pass for a path over a tree: what it comes to, and the collection that it leaves. -/
def collect (tree : Tree) (source : Bytes) (path : Path) (collected : List Patch) :
    Except MatchFault Nat × List Patch :=
  let target := path.canonical
  let matcher := traverse (Matcher.visit target source) tree (.start collected)
  (matcher.outcome target, matcher.collected)

/-! ## Passes -/

section Passes

variable {tree : Tree} {source : Bytes} {path : Path}

/-- A matcher that takes what a visit comes to. -/
def Matcher.take (matcher : Matcher) : Except Refusal Patch → Matcher
  | .ok patch => matcher.push patch
  | .error refusal => matcher.refuse refusal

/-- A visit is taken for what it comes to at the target, and passed over elsewhere. -/
lemma Matcher.visit_eq (target : String) (matcher : Matcher) (visit : Visit) :
    matcher.visit target source visit =
      ((if visit.path.canonical = target then meet target source visit.visited else none).map
        matcher.take).getD matcher := by
  obtain ⟨place, visited⟩ := visit
  by_cases here : place.canonical = target
  · cases visited with
    | root | item | value => simp [Matcher.visit, meet, here, Matcher.take]
    | entry entry flow =>
      cases flow with
      | true => simp [Matcher.visit, meet, here, Matcher.take]
      | false =>
        cases indicator : entry.indicator with
        | none => simp [Matcher.visit, meet, here, Matcher.take, indicator]
        | some colon => simp [Matcher.visit, meet, here, Matcher.take, indicator]
  · cases visited with
    | root | item | value | entry => simp [Matcher.visit, here]

/-- The refusal that a visit comes to. -/
def refusal? : Except Refusal Patch → Option Refusal
  | .ok _ => none
  | .error refusal => some refusal

/-- What is taken is collected and counted if it is a patch; of refusals the first one is kept. -/
lemma Matcher.foldl_take (matcher : Matcher) (meetings : List (Except Refusal Patch)) :
    meetings.foldl Matcher.take matcher =
      ⟨matcher.collected ++ meetings.filterMap Except.toOption,
        matcher.matched + (meetings.filterMap Except.toOption).length,
        matcher.refused.or (meetings.findSome? refusal?)⟩ := by
  induction meetings generalizing matcher with
  | nil => simp
  | cons meeting rest ih =>
    rw [List.foldl_cons, ih, List.filterMap_cons, List.findSome?_cons]
    cases meeting with
    | ok patch => simp [Matcher.take, Matcher.push, Except.toOption, refusal?, Nat.add_right_comm,
        Nat.add_assoc]
    | error refusal =>
      cases h : matcher.refused <;>
        simp [Matcher.take, Matcher.refuse, Except.toOption, refusal?, h]

/-- A pass takes what the visits at the path come to. -/
lemma traverse_visit (collected : List Patch) :
    traverse (Matcher.visit path.canonical source) tree (.start collected) =
      (meetings tree source path).foldl Matcher.take (.start collected) := by
  rw [traverse_eq, meetings, List.foldl_filterMap]
  -- a visit that comes to nothing is passed over on both sides
  congr
  funext matcher visit
  rw [Matcher.visit_eq]
  cases (if visit.path.canonical = path.canonical then meet path.canonical source visit.visited
    else none) <;> rfl

lemma collect_eq_take (collected : List Patch) :
    collect tree source path collected =
      (((meetings tree source path).foldl Matcher.take (.start collected)).outcome path.canonical,
        collected ++ (meetings tree source path).filterMap Except.toOption) := by
  rw [collect, traverse_visit, Matcher.foldl_take]
  rfl

lemma outcome_of_ne_nil {meetings : List (Except Refusal Patch)} (target : String)
    (collected : List Patch) (some : meetings.filterMap Except.toOption ≠ []) :
    (meetings.foldl Matcher.take (.start collected)).outcome target =
      .ok (meetings.filterMap Except.toOption).length := by
  rw [Matcher.foldl_take, Matcher.outcome, Matcher.start, Nat.zero_add,
    if_pos (List.length_pos_iff.mpr some)]

lemma outcome_of_refused {meetings : List (Except Refusal Patch)} (target : String)
    (collected : List Patch) {refusal : Refusal}
    (none : meetings.filterMap Except.toOption = [])
    (first : meetings.head? = some (.error refusal)) :
    (meetings.foldl Matcher.take (.start collected)).outcome target =
      .error (.unpatchable target refusal) := by
  rw [Matcher.foldl_take, Matcher.outcome, Matcher.start, none]
  cases meetings with
  | nil => cases first
  | cons meeting rest =>
    cases first
    rfl

/-- A path has the patches that a pass for it collects, and fails as the pass does. -/
lemma patchesAt_eq_map_outcome (collected : List Patch) :
    patchesAt tree source path =
      (((meetings tree source path).foldl Matcher.take (.start collected)).outcome
        path.canonical).map fun _ => (meetings tree source path).filterMap Except.toOption := by
  by_cases found : (meetings tree source path).filterMap Except.toOption = []
  · have refused : ∀ meeting ∈ meetings tree source path, ∃ refusal, meeting = .error refusal := by
      intro meeting mem
      have unpatched := List.filterMap_eq_nil_iff.mp found meeting mem
      cases meeting with
      | ok patch => cases unpatched
      | error refusal => exact ⟨refusal, rfl⟩
    cases met : meetings tree source path with
    | nil =>
      rw [patchesAt, met]
      rfl
    | cons meeting rest =>
      rw [met] at found refused
      obtain ⟨⟨refusal, rfl⟩, others⟩ := List.forall_mem_cons.mp refused
      rw [patchesAt_of_refused met others, outcome_of_refused _ _ found rfl]
      rfl
  · rw [patchesAt_eq_ok_iff.mpr ⟨rfl, found⟩, outcome_of_ne_nil _ _ found]
    rfl

/-! ## Visits at a path -/

/-- Whether a visit is to the root, an entry or an item at a path; the value of an entry is visited
with it. -/
def Visit.isAt (path : Path) (visit : Visit) : Bool :=
  match visit.visited with
  | .value _ => false
  | _ => decide (visit.path.segments = path.segments)

/-- The visits of the walk to the root, entries and items at a path. -/
def visitsAt (tree : Tree) (path : Path) : List Visit :=
  (walk tree).filter (Visit.isAt path)

/-- The patch for what is visited at a path: an entry outside of braces whose `:` is known. -/
def patchFor? (source : Bytes) (path : Path) (visit : Visit) : Option Patch :=
  match visit.visited with
  | .entry entry false => entry.indicator.map (entryPatch source path entry)
  | _ => none

/-- The visits at a path, as they are written, are those at its segments. -/
lemma meetings_eq_filterMap :
    meetings tree source path =
      (visitsAt tree path).filterMap fun visit => meet path.canonical source visit.visited := by
  rw [meetings, visitsAt, List.filterMap_filter]
  refine List.filterMap_congr fun visit _ => ?_
  obtain ⟨place, visited⟩ := visit
  have same : place.canonical = path.canonical ↔ place.segments = path.segments :=
    ⟨fun h => congrArg Path.segments (Path.canonical_injective h),
      fun h => congrArg Path.canonical (congrArg Path.mk h : Path.mk _ = Path.mk _)⟩
  cases visited with
  | value node => simp [Visit.isAt, meet]
  | root | item | entry => simp [Visit.isAt, same]

lemma toOption_meet (visit : Visit) :
    (meet path.canonical source visit.visited).bind Except.toOption =
      patchFor? source path visit := by
  obtain ⟨place, visited⟩ := visit
  cases visited with
  | root | value | item => rfl
  | entry entry flow =>
    cases flow with
    | true => rfl
    | false => cases indicator : entry.indicator <;> simp [meet, patchFor?, indicator, entryPatch,
        Except.toOption]

/-- The patches that the visits at a path come to. -/
lemma filterMap_meetings :
    (meetings tree source path).filterMap Except.toOption =
      (visitsAt tree path).filterMap (patchFor? source path) := by
  rw [meetings_eq_filterMap, List.filterMap_filterMap]
  exact List.filterMap_congr fun visit _ => toOption_meet visit

/-- A visit at a path that there is no patch for is refused. -/
lemma exists_refusal {visit : Visit} (mem : visit ∈ visitsAt tree path)
    (unpatched : patchFor? source path visit = none) :
    ∃ refusal, meet path.canonical source visit.visited = some (.error refusal) := by
  have here := List.of_mem_filter mem
  obtain ⟨place, visited⟩ := visit
  cases visited with
  | root node => exact ⟨.isRoot, rfl⟩
  | item node flow => exact ⟨.isItem, rfl⟩
  | value node => cases here
  | entry entry flow =>
    cases flow with
    | true => exact ⟨.inFlow, rfl⟩
    | false =>
      cases indicator : entry.indicator with
      | none => exact ⟨.noIndicator, by simp [meet, indicator]⟩
      | some colon => simp [patchFor?, indicator] at unpatched

/-- A pass collects one patch for each visit at the path that has one, in order. -/
theorem collect_eq (tree : Tree) (source : Bytes) (path : Path) (collected : List Patch) :
    let found := (visitsAt tree path).filterMap (patchFor? source path)
    (collect tree source path collected).2 = collected ++ found ∧
      (found ≠ [] → (collect tree source path collected).1 = .ok found.length) ∧
      (visitsAt tree path = [] →
        (collect tree source path collected).1 = .error (.notFound path.canonical)) ∧
      (∀ visit rest, visitsAt tree path = visit :: rest → found = [] →
        ∃ refusal, meet path.canonical source visit.visited = some (.error refusal) ∧
          (collect tree source path collected).1 =
            .error (.unpatchable path.canonical refusal)) ∧
      patchesAt tree source path = (collect tree source path collected).1.map fun _ => found := by
  intro found
  have none_met (none : visitsAt tree path = []) : meetings tree source path = [] := by
    rw [meetings_eq_filterMap, none, List.filterMap_nil]
  have first_met (visit : Visit) (rest : List Visit)
      (some : visitsAt tree path = visit :: rest) (none : found = []) :
      ∃ refusal, meet path.canonical source visit.visited = Option.some (.error refusal) ∧
        (meetings tree source path).head? = Option.some (.error refusal) := by
    have mem : visit ∈ visitsAt tree path := some ▸ List.mem_cons_self
    obtain ⟨refusal, met⟩ := exists_refusal mem (List.filterMap_eq_nil_iff.mp none visit mem)
    refine ⟨refusal, met, ?_⟩
    rw [meetings_eq_filterMap, some, List.filterMap_cons, met]
    rfl
  rw [collect_eq_take, filterMap_meetings]
  refine ⟨rfl, fun some => ?_, fun none => ?_, fun visit rest some none => ?_, ?_⟩
  · rw [outcome_of_ne_nil _ _ (by rwa [filterMap_meetings]), filterMap_meetings]
  · rw [none_met none]
    rfl
  · obtain ⟨refusal, met, first⟩ := first_met visit rest some none
    exact ⟨refusal, met, outcome_of_refused _ _ (by rwa [filterMap_meetings]) first⟩
  · have agrees := @patchesAt_eq_map_outcome tree source path collected
    rw [filterMap_meetings] at agrees
    exact agrees

end Passes

end ChartLift.Rewrite
