import ChartLift.Proofs.Extraction.Accounts

/-!
# Lenient runs

A lenient run does what a strict one does: failures are looked at when they are put on record, and
nothing is stored, planned or written by what becomes of them (`Treats.pardoned`). So the records of
entries that are missing go from the diagnostics to the warnings, the states count that many failures
less, and all else is the same (`Extractor.run_lenient`).
-/

namespace ChartLift

/-- Whether a failure is that there is no entry at a path. -/
def Failure.isMissing : Failure → Bool
  | unmatched (.notFound _) => true
  | _ => false

/-- Whether what is on record is that there is no entry at a path. -/
def Diagnostic.isMissing (diagnostic : Diagnostic) : Bool := diagnostic.failure.isMissing

/-- States of a document that differ in the number of its failures, if in anything. -/
inductive DocumentState.Pardons (number : Nat) : DocumentState → DocumentState → Prop where
  | rewritten {applied failed} :
    Pardons number (.rewritten applied (failed + number)) (.rewritten applied failed)
  | skipped {reason} :
    number = 0 →
    Pardons number (.skipped reason) (.skipped reason)
  | unmatched :
    number = 0 →
    Pardons number .unmatched .unmatched

namespace Extractor

variable {rules : List ReadyRule} {rejected : List Diagnostic} {valuesName : String}
  {document : Manifest} {documents : List Manifest} {store after : Store} {fate : Fate}
  {fates : List Fate}

/-- What is tolerated are missing entries, by those who are lenient. -/
lemma tolerates_eq (options : RunOptions) (failure : Failure) :
    tolerates options failure = (options.lenient && failure.isMissing) := by
  cases failure with
  | unmatched fault => cases fault <;> simp [tolerates, Failure.isMissing]
  | _ => exact (Bool.and_false _).symm

/-- No rule is rejected for a missing entry. -/
lemma isMissing_of_rejected {given : List Rule} {options : RunOptions} :
    ∀ diagnostic ∈ (ofRules given options).rejected, diagnostic.isMissing = false := by
  intro diagnostic mem
  obtain ⟨rule, -, is⟩ := List.mem_filterMap.mp mem
  rw [Rule.ready] at is
  split at is
  · cases is
  · rename_i failed
    split at failed
    · cases failed
      cases is
      rfl
    · split at failed
      · cases failed
        cases is
        rfl
      · cases failed

/-- Fates of a document in a strict and in a lenient run. -/
structure Pardoned (strict lenient : Fate) : Prop where
  document : lenient.document = strict.document
  unwarned : strict.warnings = []
  diagnostics : lenient.diagnostics = strict.diagnostics.filter (!·.isMissing)
  warnings : lenient.warnings = strict.diagnostics.filter (·.isMissing)
  state : strict.state.Pardons lenient.warnings.length lenient.state

/-- A document fares in a lenient run as in a strict one, but for what is on record of missing entries.
-/
lemma Treats.pardoned
    (h : Treats ⟨rules, rejected, ⟨false, valuesName⟩⟩ document store after fate) :
    ∃ fate', Treats ⟨rules, rejected, ⟨true, valuesName⟩⟩ document store after fate' ∧
      Pardoned fate fate' := by
  cases h with
  | skipped skip => exact ⟨_, .skipped skip, rfl, rfl, rfl, rfl, .skipped rfl⟩
  | undecodable considered faulty =>
    exact ⟨_, .undecodable considered faulty, rfl, rfl, rfl, rfl, .skipped rfl⟩
  | unmatched decodes none => exact ⟨_, .unmatched decodes none, rfl, rfl, rfl, rfl, .unmatched rfl⟩
  | unindexed decodes busy unindexed =>
    exact ⟨_, .unindexed decodes busy unindexed, rfl, rfl, rfl, rfl, .skipped rfl⟩
  | @rewritten _ plan _ _ faults decodes busy indexed applied =>
    -- the rules are applied alike, and only sorting what has failed depends on the options
    have strict : isWarning ⟨rules, rejected, ⟨false, valuesName⟩⟩ = fun _ => false :=
      funext fun _ => tolerates_eq _ _
    have lenient : isWarning ⟨rules, rejected, ⟨true, valuesName⟩⟩ = Diagnostic.isMissing :=
      funext fun _ => tolerates_eq _ _
    refine ⟨_, .rewritten decodes busy indexed applied, rfl, ?_, ?_, ?_, ?_⟩
    · simp only [strict, List.filter_false]
    · simp only [strict, lenient, Bool.not_false, List.filter_true]
    · simp only [strict, lenient, Bool.not_false, List.filter_true]
    · simp only [strict, lenient, Bool.not_false, List.filter_true]
      have counted : faults.length = (faults.filter (!·.isMissing)).length +
          (faults.filter Diagnostic.isMissing).length := by
        rw [List.length_eq_length_filter_add Diagnostic.isMissing, Nat.add_comm]
      rw [counted]
      exact .rewritten

/-- Documents fare in a lenient run as in a strict one, one after the other. -/
lemma Runs.pardoned
    (h : Runs ⟨rules, rejected, ⟨false, valuesName⟩⟩ documents store after fates) :
    ∃ fates', Runs ⟨rules, rejected, ⟨true, valuesName⟩⟩ documents store after fates' ∧
      List.Forall₂ Pardoned fates fates' := by
  induction h with
  | nil => exact ⟨[], .nil, .nil⟩
  | cons treats _ ih =>
    obtain ⟨fate', treats', pardoned⟩ := treats.pardoned
    obtain ⟨fates', runs', others⟩ := ih
    exact ⟨fate' :: fates', .cons treats' runs', .cons pardoned others⟩

/-- The fates of a document stand at its position on both sides. -/
lemma exists_pardoned {fates' : List Fate} {i : Nat} (h : List.Forall₂ Pardoned fates fates')
    (there : fates[i]? = some fate) : ∃ fate', fates'[i]? = some fate' ∧ Pardoned fate fate' := by
  induction h generalizing i with
  | nil => cases there
  | cons pardoned _ ih =>
    cases i with
    | zero =>
      cases there
      exact ⟨_, rfl, pardoned⟩
    | succ i => exact ih there

/-- The records of lenient fates are those of the strict ones, sorted. -/
lemma flatMap_pardoned {fates' : List Fate} (h : List.Forall₂ Pardoned fates fates') :
    fates'.map (·.document) = fates.map (·.document) ∧ fates.flatMap (·.warnings) = [] ∧
      fates'.flatMap (·.diagnostics) = (fates.flatMap (·.diagnostics)).filter (!·.isMissing) ∧
      fates'.flatMap (·.warnings) = (fates.flatMap (·.diagnostics)).filter (·.isMissing) := by
  induction h with
  | nil => exact ⟨rfl, rfl, rfl, rfl⟩
  | cons pardoned _ ih =>
    obtain ⟨documents, unwarned, diagnostics, warnings⟩ := ih
    refine ⟨?_, ?_, ?_, ?_⟩
    · rw [List.map_cons, List.map_cons, pardoned.document, documents]
    · rw [List.flatMap_cons, pardoned.unwarned, unwarned, List.append_nil]
    · rw [List.flatMap_cons, List.flatMap_cons, List.filter_append, pardoned.diagnostics, diagnostics]
    · rw [List.flatMap_cons, List.flatMap_cons, List.filter_append, pardoned.warnings, warnings]

/-- A lenient run comes to the same documents and values as a strict one. Of the strict diagnostics, those
of missing entries are its warnings and the others its diagnostics, in the same order; and the state of
each document counts as many failures less as there are warnings about it. -/
theorem run_lenient (rules : List Rule) (documents : List Manifest) (values : ValuesTree)
    (valuesName : String) :
    let strict := (ofRules rules ⟨false, valuesName⟩).run documents values
    let lenient := (ofRules rules ⟨true, valuesName⟩).run documents values
    lenient.documents = strict.documents ∧ lenient.values = strict.values ∧
    lenient.valuesDocument = strict.valuesDocument ∧ strict.report.warnings = [] ∧
    lenient.report.diagnostics = strict.report.diagnostics.filter (!·.isMissing) ∧
    lenient.report.warnings = strict.report.diagnostics.filter (·.isMissing) ∧
    strict.report.documents.length = documents.length ∧
    lenient.report.documents.length = documents.length ∧
    ∃ moved : List (List Diagnostic), moved.flatten = lenient.report.warnings ∧
      moved.length = documents.length ∧
      ∀ (i : Nat) (document : Manifest), documents[i]? = some document →
        ∃ own before after, moved[i]? = some own ∧
        (∀ diagnostic ∈ own, diagnostic.document = some document.name) ∧
        strict.report.documents[i]? = some (document.name, before) ∧
        lenient.report.documents[i]? = some (document.name, after) ∧
        before.Pardons own.length after := by
  intro strict lenient
  obtain ⟨after, fates, runs⟩ := exists_runs (ofRules rules ⟨false, valuesName⟩) documents values
  obtain ⟨fates', runs', pardoned⟩ := runs.pardoned
  have runs' : Runs (ofRules rules ⟨true, valuesName⟩) documents (.ofValues values) after fates' :=
    runs'
  obtain ⟨outputs, stored, written, report⟩ := run_of_runs runs
  obtain ⟨outputs', stored', written', report'⟩ := run_of_runs runs'
  obtain ⟨same, unwarned, diagnosed, warned⟩ := flatMap_pardoned pardoned
  have rejected := @isMissing_of_rejected rules ⟨false, valuesName⟩
  refine ⟨by rw [outputs', outputs, same], by rw [stored', stored], by rw [written', written]; rfl,
    by rw [report, unwarned], ?_, ?_, ?_, ?_, fates'.map (·.warnings), ?_, ?_, ?_⟩
  · rw [report', report, List.filter_append, ← diagnosed,
      List.filter_eq_self.mpr fun diagnostic mem => by rw [rejected diagnostic mem]; rfl]
    rfl
  · rw [report', report, List.filter_append, ← warned,
      List.filter_eq_nil_iff.mpr fun diagnostic mem => by simp [rejected diagnostic mem],
      List.nil_append]
  · rw [report, List.length_map, runs.length]
  · rw [report', List.length_map, runs'.length]
  · rw [report', ← List.flatMap_def]
  · rw [List.length_map, runs'.length]
  · intro i document here
    obtain ⟨_, fate, there, treats⟩ := runs.treats here
    obtain ⟨_, fate', there', treats'⟩ := runs'.treats here
    obtain ⟨_, there'', spared⟩ := exists_pardoned pardoned there
    cases there'.symm.trans there''
    refine ⟨fate'.warnings, fate.state, fate'.state, ?_, fun diagnostic mem => ?_, ?_, ?_,
      spared.state⟩
    · rw [List.getElem?_map, there', Option.map_some]
    · exact treats'.accounts.recorded diagnostic (List.mem_append_right _ mem)
    · rw [report, List.getElem?_map, there, Option.map_some, treats.name]
    · rw [report', List.getElem?_map, there', Option.map_some, treats'.name]

end Extractor

end ChartLift
