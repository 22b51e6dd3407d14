import ChartLift.Proofs.Extraction.Move
import ChartLift.Proofs.Extraction.References
import Mathlib.Data.List.Perm.Basic

/-!
# The order of documents and rules

A document makes no trouble if all its rules ask for moves whose patches do not overlap (`Settles`).
A run has no diagnostics exactly if no document makes trouble and the store takes all literals
(`Runs.settles`, `runs_of_settles`). None of this depends on an order, so that a run without
diagnostics comes to the same whatever the order of the documents and the rules (`run_perm`).
-/

namespace ChartLift

open Rewrite (Plan)

namespace Extractor

/-- A document that makes no trouble, with the moves that its rules ask for and what it becomes. -/
inductive Settles (extractor : Extractor) (document : Manifest) : List Move → Manifest → Prop where
  | skipped {reason} :
    skipReason? document = some reason →
    Settles extractor document [] document
  | unmatched {decoded} :
    Decodes document decoded →
    extractor.selecting decoded = [] →
    Settles extractor document [] document
  | rewritten {decoded tree moves} :
    Decodes document decoded →
    decoded.tree? = some tree →
    List.Forall₂ (Asks extractor.options document decoded.object tree) (extractor.selecting decoded)
      moves →
    (planOf moves).Disjoint →
    Settles extractor document moves (rewrite document (planOf moves))

variable {extractor : Extractor} {document : Manifest} {documents : List Manifest}
  {store after : Store} {fate : Fate} {fates : List Fate} {moves : List Move} {output : Manifest}

lemma Settles.unique {moves' : List Move} {output' : Manifest}
    (h : Settles extractor document moves output)
    (h' : Settles extractor document moves' output') : moves = moves' ∧ output = output' := by
  cases h with
  | skipped skip =>
    cases h' with
    | skipped => exact ⟨rfl, rfl⟩
    | unmatched decodes => rw [decodes.considered] at skip; cases skip
    | rewritten decodes => rw [decodes.considered] at skip; cases skip
  | unmatched decodes none =>
    cases h' with
    | skipped skip => rw [decodes.considered] at skip; cases skip
    | unmatched => exact ⟨rfl, rfl⟩
    | rewritten decodes' _ asks =>
      cases decodes.unique decodes'
      rw [none] at asks
      cases asks
      exact ⟨rfl, rfl⟩
  | rewritten decodes indexed asks =>
    cases h' with
    | skipped skip => rw [decodes.considered] at skip; cases skip
    | unmatched decodes' none =>
      cases decodes.unique decodes'
      rw [none] at asks
      cases asks
      exact ⟨rfl, rfl⟩
    | rewritten decodes' indexed' asks' =>
      cases decodes.unique decodes'
      rw [indexed] at indexed'
      cases indexed'
      cases moves_unique asks asks'
      exact ⟨rfl, rfl⟩

/-- Records without diagnostics are all worth only a warning. -/
lemma isWarning_of_filter_eq_nil {faults : List Diagnostic}
    (clean : faults.filter (!extractor.isWarning ·) = []) :
    ∀ diagnostic ∈ faults, extractor.isWarning diagnostic = true := by
  simpa using List.filter_eq_nil_iff.mp clean

/-- A document without diagnostics makes no trouble, and the store takes its literals. -/
lemma Treats.settles (h : Treats extractor document store after fate)
    (clean : fate.diagnostics = []) :
    ∃ moves, Settles extractor document moves fate.document ∧
      store.Takes (moves.map (Move.deposit document)) after := by
  cases h with
  | skipped skip => exact ⟨[], .skipped skip, .nil⟩
  | undecodable => cases clean
  | unmatched decodes none => exact ⟨[], .unmatched decodes none, .nil⟩
  | unindexed => cases clean
  | @rewritten _ plan _ _ _ decodes _ indexed applied =>
    obtain ⟨moves, asks, takes, grows⟩ := applied.moves (isWarning_of_filter_eq_nil clean)
    obtain rfl : plan = planOf moves := congrArg Plan.mk grows
    exact ⟨moves, .rewritten decodes indexed asks (applied.disjoint Plan.disjoint_empty), takes⟩

/-- A document that makes no trouble has no diagnostics if the store takes its literals. -/
lemma Settles.treats (h : Settles extractor document moves output)
    (takes : store.Takes (moves.map (Move.deposit document)) after) :
    ∃ fate, Treats extractor document store after fate ∧ fate.diagnostics = [] ∧
      fate.document = output := by
  cases h with
  | skipped skip =>
    cases takes
    exact ⟨_, .skipped skip, rfl, rfl⟩
  | unmatched decodes none =>
    cases takes
    exact ⟨_, .unmatched decodes none, rfl, rfl⟩
  | rewritten decodes indexed asks disjoint =>
    obtain ⟨faults, applied, clean⟩ :=
      applied_of_moves asks takes (List.nil_append _).symm disjoint
    obtain ⟨state, treats⟩ := Treats.of_applied decodes indexed applied
    refine ⟨_, treats, List.filter_eq_nil_iff.mpr fun diagnostic mem => ?_, rfl⟩
    simpa [isWarning] using clean diagnostic mem

/-! ## Runs -/

/-- What the documents of a run have stored, one after the other. -/
def deposits (asks : Manifest → List Move) (documents : List Manifest) : List Store.Deposit :=
  documents.flatMap fun document => (asks document).map (Move.deposit document)

/-- A run without diagnostics has documents that make no trouble, and the store takes all their
literals. -/
lemma Runs.settles (runs : Runs extractor documents store after fates)
    (clean : ∀ fate ∈ fates, fate.diagnostics = []) :
    ∃ asks becomes, (∀ document ∈ documents, Settles extractor document (asks document)
        (becomes document)) ∧
      store.Takes (deposits asks documents) after ∧
      fates.map (·.document) = documents.map becomes := by
  have determined : ∀ document, ∃ result : List Move × Manifest, ∀ moves output,
      Settles extractor document moves output → result = (moves, output) := by
    intro document
    by_cases settled : ∃ moves output, Settles extractor document moves output
    · obtain ⟨moves, output, settles⟩ := settled
      refine ⟨(moves, output), fun moves' output' settles' => ?_⟩
      obtain ⟨rfl, rfl⟩ := settles.unique settles'
      rfl
    · exact ⟨([], document), fun moves output settles => absurd ⟨moves, output, settles⟩ settled⟩
  -- documents that occur twice ask for the same, so that what is asked for is a function of them
  choose result same using determined
  refine ⟨fun document => (result document).1, fun document => (result document).2, ?_⟩
  induction runs with
  | nil => exact ⟨List.forall_mem_nil _, .nil, rfl⟩
  | cons treats _ ih =>
    obtain ⟨here, clean⟩ := List.forall_mem_cons.mp clean
    obtain ⟨settles, takes, outputs⟩ := ih clean
    obtain ⟨moves, settled, taken⟩ := treats.settles here
    have known := same _ _ _ settled
    refine ⟨List.forall_mem_cons.mpr ⟨?_, settles⟩, ?_, ?_⟩
    · simpa only [known] using settled
    · rw [deposits, List.flatMap_cons, known]
      exact taken.append takes
    · rw [List.map_cons, List.map_cons, known, outputs]

/-- Documents that make no trouble run without diagnostics if the store takes all their literals. -/
lemma runs_of_settles {asks : Manifest → List Move} {becomes : Manifest → Manifest}
    (settles : ∀ document ∈ documents, Settles extractor document (asks document)
      (becomes document))
    (takes : store.Takes (deposits asks documents) after) :
    ∃ fates, Runs extractor documents store after fates ∧
      (∀ fate ∈ fates, fate.diagnostics = []) ∧ fates.map (·.document) = documents.map becomes := by
  induction documents generalizing store with
  | nil =>
    cases takes
    exact ⟨[], .nil, List.forall_mem_nil _, rfl⟩
  | cons document documents ih =>
    obtain ⟨here, settles⟩ := List.forall_mem_cons.mp settles
    obtain ⟨middle, taken, takes⟩ := Store.takes_append_iff.mp takes
    obtain ⟨fate, treats, clean, output⟩ := here.treats taken
    obtain ⟨fates, runs, clean', outputs⟩ := ih settles takes
    refine ⟨fate :: fates, .cons treats runs, List.forall_mem_cons.mpr ⟨clean, clean'⟩, ?_⟩
    rw [List.map_cons, List.map_cons, output, outputs]

/-! ## Permutations -/

/-- A document that makes no trouble makes none if its rules are permuted, and becomes the same. -/
lemma Settles.perm {extractor' : Extractor} (h : Settles extractor document moves output)
    (options : extractor'.options = extractor.options)
    (perm : extractor.rules.Perm extractor'.rules) (last : document.raw.getLast? ≠ some 58) :
    ∃ moves', moves.Perm moves' ∧ Settles extractor' document moves' output := by
  have chosen : ∀ decoded, (extractor.selecting decoded).Perm (extractor'.selecting decoded) :=
    fun decoded => perm.filter _
  cases h with
  | skipped skip => exact ⟨[], .nil, .skipped skip⟩
  | @unmatched decoded decodes none =>
    refine ⟨[], .nil, .unmatched decodes ?_⟩
    have same := chosen decoded
    rw [none] at same
    exact same.nil_eq.symm
  | @rewritten decoded tree _ decodes indexed asks disjoint =>
    obtain ⟨moves', asks', perm'⟩ := List.perm_comp_forall₂ (chosen decoded).symm asks
    have entries : (planOf moves).entries.Perm (planOf moves').entries :=
      perm'.symm.flatMap_right _
    have proper : ∀ entry ∈ (planOf moves).entries, entry.1.Proper document.raw := by
      intro entry mem
      obtain ⟨rule, plans⟩ := exists_plans asks mem
      obtain ⟨⟨colon, span⟩, _⟩ := plans.cuts decodes indexed last
      exact span.proper entry.1.path
    have same : rewrite document (planOf moves) = rewrite document (planOf moves') := by
      rw [rewrite_eq, rewrite_eq, Plan.apply_eq_of_perm disjoint proper entries]
    rw [← options] at asks'
    rw [same]
    exact ⟨moves', perm'.symm, .rewritten decodes indexed asks' (disjoint.perm entries)⟩

/-- A run without diagnostics does not depend on the order of the documents and of the rules: over
any permutation of either there are no diagnostics, each document becomes the same, and so do the
values and their document. -/
theorem run_perm {rules rules' : List Rule} {options : RunOptions}
    {documents documents' : List Manifest} {values : ValuesTree} (permRules : rules.Perm rules')
    (permDocuments : documents.Perm documents')
    (last : ∀ document ∈ documents, document.raw.getLast? ≠ some 58)
    (clean : ((ofRules rules options).run documents values).report.diagnostics = []) :
    let here := (ofRules rules options).run documents values
    let there := (ofRules rules' options).run documents' values
    there.report.diagnostics = [] ∧
      (∃ becomes, here.documents = documents.map becomes ∧
        there.documents = documents'.map becomes) ∧
      there.values = here.values ∧ there.valuesDocument = here.valuesDocument := by
  intro here there
  obtain ⟨after, fates, runs⟩ := exists_runs (ofRules rules options) documents values
  obtain ⟨outputs, tree, file, report⟩ := run_of_runs runs
  rw [report, List.append_eq_nil_iff, List.flatMap_eq_nil_iff] at clean
  obtain ⟨asks, becomes, settles, takes, fate_documents⟩ := runs.settles clean.2
  have permReady : (ofRules rules options).rules.Perm (ofRules rules' options).rules :=
    permRules.filterMap _
  have permRejected : (ofRules rules options).rejected.Perm (ofRules rules' options).rejected :=
    permRules.filterMap _
  rw [clean.1, List.nil_perm] at permRejected
  have permuted : ∀ document ∈ documents, ∃ moves', (asks document).Perm moves' ∧
      Settles (ofRules rules' options) document moves' (becomes document) :=
    fun document mem => (settles document mem).perm rfl permReady (last document mem)
  choose! asks' perm settles' using permuted
  have deposited : (deposits asks documents).Perm (deposits asks' documents') :=
    List.Perm.flatMap permDocuments fun document mem => (perm document mem).map _
  obtain ⟨after', takes', similar⟩ := takes.perm (Store.sound_ofValues values) deposited
  obtain ⟨fates', runs', clean', fate_documents'⟩ := runs_of_settles
    (fun document mem => settles' document (permDocuments.mem_iff.mpr mem)) takes'
  obtain ⟨outputs', tree', file', report'⟩ := run_of_runs runs'
  refine ⟨?_, ⟨becomes, ?_, ?_⟩, ?_, ?_⟩
  · rw [report', permRejected, List.nil_append, List.flatMap_eq_nil_iff]
    exact clean'
  · rw [outputs, fate_documents]
  · rw [outputs', fate_documents']
  · rw [tree, tree', similar.values]
  · rw [file, file', similar.values]
    rfl

/-- Two documents that share a key, and two rules, in either order. -/
theorem run_perm_small :
    let rules := [Rule.ofField "a" "k", Rule.ofField "b" "l"]
    let rules' := [Rule.ofField "b" "l", Rule.ofField "a" "k"]
    let options : RunOptions := ⟨false, valuesName⟩
    let documents := [Manifest.small, .ofFields "b.yaml" "x" "y"]
    let documents' := [Manifest.ofFields "b.yaml" "x" "y", .small]
    let values : ValuesTree := ⟨[("k", .string "old")]⟩
    let here := (ofRules rules options).run documents values
    let there := (ofRules rules' options).run documents' values
    (rules.Perm rules' ∧ documents.Perm documents' ∧
      (∀ document ∈ documents, document.raw.getLast? ≠ some 58) ∧ here.report.diagnostics = []) ∧
      there.report.diagnostics = [] ∧
      (∃ becomes, here.documents = documents.map becomes ∧
        there.documents = documents'.map becomes) ∧
      there.values = here.values ∧ there.valuesDocument = here.valuesDocument := by
  intro rules rules' options documents documents' values
  have permRules : rules.Perm rules' := .swap _ _ _
  have permDocuments : documents.Perm documents' := .swap _ _ _
  have last : ∀ document ∈ documents, document.raw.getLast? ≠ some 58 := by decide +kernel
  have clean : ((ofRules rules options).run documents values).report.diagnostics = [] :=
    List.isEmpty_iff.mp (by decide +kernel)
  exact ⟨⟨permRules, permDocuments, last, clean⟩, run_perm permRules permDocuments last clean⟩

end Extractor

end ChartLift
