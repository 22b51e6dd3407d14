import ChartLift.Proofs.Extraction.Run
import Mathlib.Data.List.Forall2

/-!
# Moves

What a rule asks of a run for a document does not depend on the run: a literal to store and patches
to plan (`Asks`). Rules apply without a failure, apart from tolerated ones, exactly if each of them
asks for a move, the store takes all the literals and no two of the patches overlap
(`Applied.moves`, `applied_of_moves`).
-/

namespace ChartLift

open Rewrite (Patch Plan)

/-- A literal to store under a key, and the patches that refer to it. -/
structure Move where
  key : String
  literal : String
  patches : List Patch

namespace Move

/-- The patches of a move as a plan holds them. -/
def entries (move : Move) : List (Patch × String) := move.patches.map (·, move.key)

/-- The literal of a move as it is stored for a document. -/
def deposit (document : Manifest) (move : Move) : Store.Deposit :=
  ⟨move.key, move.literal, document.name⟩

end Move

/-- The patches of moves, in their order. -/
def planOf (moves : List Move) : Plan := ⟨moves.flatMap Move.entries⟩

/-- What a rule asks for on a document. A path without an entry asks for no patches where that is
tolerated. -/
inductive Asks (options : RunOptions) (document : Manifest) (object : Value)
    (tree : Yaml.Layout.Tree) (rule : ReadyRule) : Move → Prop where
  | patched {place value key patches} :
    object.locate rule.path = .ok (place, value) →
    rule.template.render object = .ok key →
    Rewrite.patchesAt tree document.raw place = .ok patches →
    Asks options document object tree rule ⟨key, value.render, patches⟩
  | unpatched {place value key fault} :
    object.locate rule.path = .ok (place, value) →
    rule.template.render object = .ok key →
    Rewrite.patchesAt tree document.raw place = .error fault →
    Extractor.tolerates options (.unmatched fault) = true →
    Asks options document object tree rule ⟨key, value.render, []⟩

section Asks

variable {options : RunOptions} {document : Manifest} {object : Value} {tree : Yaml.Layout.Tree}
  {rule : ReadyRule} {rules : List ReadyRule} {store after : Store} {plan grown : Plan}
  {fault : Option RuleFault} {faults : List Diagnostic} {move : Move} {moves : List Move}

lemma Asks.unique {move' : Move} (h : Asks options document object tree rule move)
    (h' : Asks options document object tree rule move') : move = move' := by
  cases h with
  | patched located rendered met =>
    cases h' with
    | patched located' rendered' met' =>
      rw [located] at located'
      cases located'
      rw [rendered] at rendered'
      cases rendered'
      rw [met] at met'
      cases met'
      rfl
    | unpatched located' _ met' =>
      rw [located] at located'
      cases located'
      rw [met] at met'
      cases met'
  | unpatched located rendered met =>
    cases h' with
    | patched located' _ met' =>
      rw [located] at located'
      cases located'
      rw [met] at met'
      cases met'
    | unpatched located' rendered' =>
      rw [located] at located'
      cases located'
      rw [rendered] at rendered'
      cases rendered'
      rfl

/-- The patches that a rule asks for are those that it has. -/
lemma Asks.plans {entry : Patch × String} (h : Asks options document object tree rule move)
    (mem : entry ∈ move.entries) : Application.Plans document object tree rule entry := by
  cases h with
  | patched located rendered met =>
    obtain ⟨patch, here, rfl⟩ := List.mem_map.mp mem
    exact ⟨_, _, _, located, rendered, met, here⟩
  | unpatched => cases mem

/-- All patches that are asked for are those of some rule. -/
lemma exists_plans {entry : Patch × String}
    (h : List.Forall₂ (Asks options document object tree) rules moves)
    (mem : entry ∈ (planOf moves).entries) :
    ∃ rule, Application.Plans document object tree rule entry := by
  induction h with
  | nil => cases mem
  | @cons rule _ _ _ asks _ ih =>
    rcases List.mem_append.mp mem with here | there
    · exact ⟨rule, asks.plans here⟩
    · exact ih there

/-- Rules ask for one move each. -/
lemma moves_unique {moves' : List Move}
    (h : List.Forall₂ (Asks options document object tree) rules moves)
    (h' : List.Forall₂ (Asks options document object tree) rules moves') : moves = moves' := by
  have unique : Relator.RightUnique (Asks options document object tree) :=
    fun _ _ _ => Asks.unique
  exact List.right_unique_forall₂' unique h h'

/-- An application without a failure, apart from tolerated ones, makes the move that is asked for.
-/
lemma asks_of_ends (ends : Application.Ends document object tree rule store plan after grown fault)
    (clean : ∀ failed ∈ fault, Extractor.tolerates options failed.failure = true) :
    ∃ move, Asks options document object tree rule move ∧
      store.Puts move.key move.literal document.name after ∧
      plan.add move.patches move.key = .ok grown := by
  cases ends with
  | unread => cases clean _ rfl
  | unrendered => cases clean _ rfl
  | unstored _ _ refused =>
    have tolerated := clean _ rfl
    rcases Store.put_eq_error refused with ⟨_, _, rfl⟩ | ⟨_, rfl⟩ <;> cases tolerated
  | unmatched located rendered stored met =>
    exact ⟨_, .unpatched located rendered met (clean _ rfl), stored, Plan.add_nil _ _⟩
  | overlapping => cases clean _ rfl
  | planned located rendered stored met added =>
    exact ⟨_, .patched located rendered met, stored, added⟩

/-- The move that is asked for is made without a failure, apart from tolerated ones, if the store
takes it and its patches fit into the plan. -/
lemma Asks.ends (asks : Asks options document object tree rule move)
    (stored : store.Puts move.key move.literal document.name after)
    (added : plan.add move.patches move.key = .ok grown) :
    ∃ fault, Application.Ends document object tree rule store plan after grown fault ∧
      ∀ failed ∈ fault, Extractor.tolerates options failed.failure = true := by
  cases asks with
  | patched located rendered met =>
    exact ⟨none, .planned located rendered stored met added, fun _ mem => nomatch mem⟩
  | unpatched located rendered met tolerated =>
    rw [Plan.add_nil] at added
    cases added
    refine ⟨_, .unmatched located rendered stored met, fun failed mem => ?_⟩
    cases mem
    exact tolerated

end Asks

namespace Extractor

section Applied

variable {options : RunOptions} {document : Manifest} {object : Value} {tree : Yaml.Layout.Tree}
  {rules : List ReadyRule} {store after : Store} {plan grown : Plan} {faults : List Diagnostic}

/-- Rules that are applied without a failure, apart from tolerated ones, make the moves that are
asked for. -/
lemma Applied.moves (h : Applied document object tree rules store plan after grown faults)
    (clean : ∀ diagnostic ∈ faults, tolerates options diagnostic.failure = true) :
    ∃ moves, List.Forall₂ (Asks options document object tree) rules moves ∧
      store.Takes (moves.map (Move.deposit document)) after ∧
      grown.entries = plan.entries ++ (planOf moves).entries := by
  induction h with
  | nil => exact ⟨[], .nil, .nil, (List.append_nil _).symm⟩
  | done ends _ ih =>
    obtain ⟨moves, asks, takes, grows⟩ := ih clean
    obtain ⟨move, asked, stored, added⟩ := asks_of_ends ends fun _ mem => nomatch mem
    refine ⟨move :: moves, .cons asked asks, .cons stored takes, ?_⟩
    rw [grows, Plan.entries_of_add added, List.append_assoc]
    rfl
  | failed ends _ ih =>
    obtain ⟨tolerated, clean⟩ := List.forall_mem_cons.mp clean
    obtain ⟨moves, asks, takes, grows⟩ := ih clean
    obtain ⟨move, asked, stored, added⟩ :=
      asks_of_ends ends fun _ mem => Option.some.inj mem ▸ tolerated
    refine ⟨move :: moves, .cons asked asks, .cons stored takes, ?_⟩
    rw [grows, Plan.entries_of_add added, List.append_assoc]
    rfl

/-- Moves that are asked for are made without a failure, apart from tolerated ones, if the store
takes all of them and no patches overlap. -/
lemma applied_of_moves {moves : List Move}
    (asks : List.Forall₂ (Asks options document object tree) rules moves)
    (takes : store.Takes (moves.map (Move.deposit document)) after)
    (grows : grown.entries = plan.entries ++ (planOf moves).entries) (disjoint : grown.Disjoint) :
    ∃ faults, Applied document object tree rules store plan after grown faults ∧
      ∀ diagnostic ∈ faults, tolerates options diagnostic.failure = true := by
  induction asks generalizing store plan with
  | nil =>
    cases takes
    obtain rfl : grown = plan := congrArg Plan.mk (grows.trans (List.append_nil _))
    exact ⟨[], .nil, List.forall_mem_nil _⟩
  | @cons rule move rules moves asked _ ih =>
    cases takes with
    | cons stored takes =>
      have here : grown.entries =
          Plan.entries ⟨plan.entries ++ move.entries⟩ ++ (planOf moves).entries := by
        rw [grows, List.append_assoc]
        rfl
      obtain ⟨faults, applied, clean⟩ := ih takes here
      -- what is planned up to here is part of the whole plan, and so does not overlap either
      have added : plan.add move.patches move.key = .ok ⟨plan.entries ++ move.entries⟩ :=
        (Plan.add_eq_ok_iff (disjoint.of_append grows)).mpr ⟨rfl, disjoint.of_append here⟩
      obtain ⟨fault, ends, tolerated⟩ := asked.ends stored added
      cases fault with
      | none => exact ⟨faults, .done ends applied, clean⟩
      | some failed =>
        exact ⟨_, .failed ends applied, List.forall_mem_cons.mpr ⟨tolerated failed rfl, clean⟩⟩

end Applied

end Extractor

end ChartLift
