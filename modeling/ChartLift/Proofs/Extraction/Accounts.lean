import ChartLift.Proofs.Extraction.Run
import Mathlib.Algebra.GroupWithZero.Nat
import Mathlib.Data.List.Basic

/-!
# The report accounts for the run

Each rule about a document is applied once, and its application succeeds, or its failure is among the
diagnostics of the document or among its warnings (`Applied.count`). The state of a document tells
what became of it, and counts its patches and its diagnostics (`Treats.accounts`). So the diagnostics
of a report are those of the rules that are not ready, one for each document that cannot be read, and
the failures counted for the others (`Extractor.run_accounts`).
-/

namespace ChartLift

/-- The number of rules that failed, as a state counts them. -/
def DocumentState.failures : DocumentState → Nat
  | rewritten _ failed => failed
  | _ => 0

namespace Extractor

/-! ## Applications -/

/-- The applications of rules to a document, each behind those of the rules before it. -/
def applications (document : Manifest) (object : Value) (tree : Yaml.Layout.Tree) :
    List ReadyRule → Store → Rewrite.Plan → List Application
  | [], _, _ => []
  | rule :: rules, store, plan =>
    let applied := Application.run document object tree rule store plan
    applied :: applications document object tree rules applied.store applied.plan

/-- Each rule is applied once, without a fault or with one on record. -/
lemma Applied.count {document : Manifest} {object : Value} {tree : Yaml.Layout.Tree}
    {rules : List ReadyRule} {store after : Store} {plan grown : Rewrite.Plan}
    {faults : List Diagnostic}
    (h : Applied document object tree rules store plan after grown faults) :
    rules.length = (applications document object tree rules store plan).countP (·.fault.isNone) +
      faults.length := by
  induction h with
  | nil => rfl
  | done ends _ ih =>
    obtain ⟨rfl, rfl, fine⟩ := Application.ends_iff.mp ends
    rw [applications, List.countP_cons_of_pos (by rw [fine]; rfl), List.length_cons, ih]
    omega
  | failed ends _ ih =>
    obtain ⟨rfl, rfl, failed⟩ := Application.ends_iff.mp ends
    rw [applications, List.countP_cons_of_neg (by rw [failed]; exact nofun), List.length_cons, ih,
      List.length_cons]
    omega

/-- The failures on record are about the document. -/
lemma Applied.named {document : Manifest} {object : Value} {tree : Yaml.Layout.Tree}
    {rules : List ReadyRule} {store after : Store} {plan grown : Rewrite.Plan}
    {faults : List Diagnostic} {diagnostic : Diagnostic}
    (h : Applied document object tree rules store plan after grown faults)
    (mem : diagnostic ∈ faults) : diagnostic.document = some document.name := by
  induction h with
  | nil => cases mem
  | done _ _ ih => exact ih mem
  | failed _ _ ih =>
    rcases List.mem_cons.mp mem with rfl | mem
    · rfl
    · exact ih mem

/-! ## Documents -/

section Treats

variable {extractor : Extractor} {document : Manifest} {store after : Store} {fate : Fate}

/-- A document is left alone by its name if it is internal, and else if it is no YAML. -/
lemma skipReason?_eq_some_iff {reason : SkipReason} :
    skipReason? document = some reason ↔ document.isInternal = true ∧ .internal = reason ∨
      document.isInternal = false ∧ document.isYaml = false ∧ .notYaml = reason := by
  cases named : document.isInternal with
  | true => simp [skipReason?, named]
  | false =>
    cases yaml : document.isYaml with
    | true => simp [skipReason?, named, yaml]
    | false => simp [skipReason?, named, yaml]

lemma skipReason?_eq_none_iff :
    skipReason? document = none ↔ document.isInternal = false ∧ document.isYaml = true := by
  cases named : document.isInternal with
  | true => simp [skipReason?, named]
  | false =>
    cases yaml : document.isYaml with
    | true => simp [skipReason?, named, yaml]
    | false => simp [skipReason?, named, yaml]

lemma Treats.internal_iff (h : Treats extractor document store after fate) :
    fate.state = .skipped .internal ↔ document.isInternal = true := by
  constructor
  · intro state
    cases h with
    | skipped skip =>
      cases state
      rcases skipReason?_eq_some_iff.mp skip with ⟨internal, -⟩ | ⟨-, -, other⟩
      · exact internal
      · cases other
    | _ => cases state
  · intro internal
    obtain ⟨-, rfl⟩ := h.unique (.skipped (skipReason?_eq_some_iff.mpr (.inl ⟨internal, rfl⟩)))
    rfl

lemma Treats.notYaml_iff (h : Treats extractor document store after fate) :
    fate.state = .skipped .notYaml ↔ document.isInternal = false ∧ document.isYaml = false := by
  constructor
  · intro state
    cases h with
    | skipped skip =>
      cases state
      rcases skipReason?_eq_some_iff.mp skip with ⟨-, other⟩ | ⟨named, other, -⟩
      · cases other
      · exact ⟨named, other⟩
    | _ => cases state
  · rintro ⟨named, other⟩
    obtain ⟨-, rfl⟩ := h.unique (.skipped (skipReason?_eq_some_iff.mpr (.inr ⟨named, other, rfl⟩)))
    rfl

lemma Treats.undecodable_iff (h : Treats extractor document store after fate) :
    fate.state = .skipped .undecodable ↔ skipReason? document = none ∧
      ((∃ fault, document.decode = .error fault) ∨ ∃ decoded, document.decode = .ok decoded ∧
        extractor.selecting decoded ≠ [] ∧ decoded.tree? = none) := by
  constructor
  · intro state
    cases h with
    | skipped skip =>
      cases state
      rcases skipReason?_eq_some_iff.mp skip with ⟨-, other⟩ | ⟨-, -, other⟩
      · cases other
      · cases other
    | undecodable considered faulty => exact ⟨considered, .inl ⟨_, faulty⟩⟩
    | unmatched => cases state
    | unindexed decodes busy unindexed =>
      exact ⟨decodes.considered, .inr ⟨_, decodes.decoded, busy, unindexed⟩⟩
    | rewritten => cases state
  · rintro ⟨considered, ⟨fault, faulty⟩ | ⟨decoded, decode, busy, unindexed⟩⟩
    · obtain ⟨-, rfl⟩ := h.unique (.undecodable considered faulty)
      rfl
    · obtain ⟨-, rfl⟩ := h.unique (.unindexed ⟨considered, decode⟩ busy unindexed)
      rfl

lemma Treats.unmatched_iff (h : Treats extractor document store after fate) :
    fate.state = .unmatched ↔
      ∃ decoded, Decodes document decoded ∧ extractor.selecting decoded = [] := by
  constructor
  · intro state
    cases h with
    | unmatched decodes none => exact ⟨_, decodes, none⟩
    | _ => cases state
  · rintro ⟨decoded, decodes, none⟩
    obtain ⟨-, rfl⟩ := h.unique (.unmatched decodes none)
    rfl

lemma Treats.rewritten_iff (h : Treats extractor document store after fate) :
    (∃ applied failed, fate.state = .rewritten applied failed) ↔
      ∃ decoded tree, Decodes document decoded ∧ extractor.selecting decoded ≠ [] ∧
        decoded.tree? = some tree := by
  constructor
  · rintro ⟨applied, failed, state⟩
    cases h with
    | rewritten decodes busy indexed => exact ⟨_, _, decodes, busy, indexed⟩
    | _ => cases state
  · rintro ⟨decoded, tree, decodes, busy, indexed⟩
    obtain ⟨plan, faults, -, rfl⟩ := h.rewritten_of_decodes decodes busy indexed
    exact ⟨_, _, rfl⟩

/-- The diagnostics of a document are one if it cannot be read, and else as many as its state counts.
-/
lemma Treats.diagnosed (h : Treats extractor document store after fate) :
    fate.diagnostics.length =
      (if fate.state == .skipped .undecodable then 1 else 0) + fate.state.failures := by
  cases h with
  | skipped skip =>
    rcases skipReason?_eq_some_iff.mp skip with ⟨-, rfl⟩ | ⟨-, -, rfl⟩
    · rfl
    · rfl
  | undecodable => rfl
  | unmatched => rfl
  | unindexed => rfl
  | rewritten => exact (Nat.zero_add _).symm

/-- What the output, the state and the records of a document account for, from the store before it. -/
structure Accounts (extractor : Extractor) (store : Store) (document output : Manifest)
    (state : DocumentState) (diagnostics warnings : List Diagnostic) : Prop where
  name : output.name = document.name
  internal : state = .skipped .internal ↔ document.isInternal = true
  notYaml : state = .skipped .notYaml ↔ document.isInternal = false ∧ document.isYaml = false
  undecodable : state = .skipped .undecodable ↔
    (document.isInternal = false ∧ document.isYaml = true) ∧
      ((∃ fault, document.decode = .error fault) ∨ ∃ decoded, document.decode = .ok decoded ∧
        extractor.selecting decoded ≠ [] ∧ decoded.tree? = none)
  unmatched : state = .unmatched ↔
    ∃ decoded, Decodes document decoded ∧ extractor.selecting decoded = []
  rewritten : (∃ applied failed, state = .rewritten applied failed) ↔
    ∃ decoded tree, Decodes document decoded ∧ extractor.selecting decoded ≠ [] ∧
      decoded.tree? = some tree
  changed : output ≠ document → 0 < state.patches
  /-- The patches of a rewritten document and the applications of the rules about it. -/
  counted : ∀ decoded tree, Decodes document decoded → extractor.selecting decoded ≠ [] →
    decoded.tree? = some tree →
      let rules := extractor.selecting decoded
      let plan := (applyAll extractor.options document decoded.object tree rules store .empty).plan
      state = .rewritten plan.entries.length diagnostics.length ∧
        output.raw = plan.apply document.raw ∧
        rules.length = (applications document decoded.object tree rules store .empty).countP
          (·.fault.isNone) + diagnostics.length + warnings.length
  diagnosed : diagnostics.length =
    (if state == .skipped .undecodable then 1 else 0) + state.failures
  warned : (∀ applied failed, state ≠ .rewritten applied failed) → warnings = []
  recorded : ∀ diagnostic ∈ diagnostics ++ warnings, diagnostic.document = some document.name

/-- What becomes of a document accounts for it. -/
lemma Treats.accounts (h : Treats extractor document store after fate) :
    Accounts extractor store document fate.document fate.state fate.diagnostics fate.warnings where
  name := h.name
  internal := h.internal_iff
  notYaml := h.notYaml_iff
  undecodable := h.undecodable_iff.trans (and_congr_left' skipReason?_eq_none_iff)
  unmatched := h.unmatched_iff
  rewritten := h.rewritten_iff
  diagnosed := h.diagnosed
  changed := by
    intro other
    cases h with
    | rewritten => exact Nat.pos_of_ne_zero fun none => other (if_pos none)
    | _ => exact absurd rfl other
  counted := by
    intro decoded tree decodes busy indexed
    obtain ⟨plan, faults, applied, rfl⟩ := h.rewritten_of_decodes decodes busy indexed
    have count := applied.count
    obtain ⟨-, rfl, -⟩ := (applied_iff extractor.options).mp applied
    refine ⟨rfl, by rw [rewrite_eq], ?_⟩
    rw [count, List.length_eq_length_filter_add extractor.isWarning, Nat.add_assoc,
      Nat.add_comm (List.length _)]
  warned := by
    intro others
    cases h with
    | rewritten => exact absurd rfl (others _ _)
    | _ => rfl
  recorded := by
    intro diagnostic mem
    cases h with
    | skipped => cases mem
    | undecodable => rw [List.mem_singleton.mp mem]
    | unmatched => cases mem
    | unindexed => rw [List.mem_singleton.mp mem]
    | rewritten _ _ _ applied =>
      rcases List.mem_append.mp mem with mem | mem
      · exact applied.named (List.mem_filter.mp mem).1
      · exact applied.named (List.mem_filter.mp mem).1

end Treats

/-! ## Runs -/

/-- The diagnostics about documents are one for each that cannot be read, and the failures that their
states count. -/
lemma Runs.count {extractor : Extractor} {documents : List Manifest} {store after : Store}
    {fates : List Fate} (h : Runs extractor documents store after fates) :
    (fates.flatMap (·.diagnostics)).length =
      fates.countP (·.state == .skipped .undecodable) + (fates.map (·.state.failures)).sum := by
  induction h with
  | nil => rfl
  | cons treats _ ih =>
    rw [List.flatMap_cons, List.length_append, treats.diagnosed, ih, List.countP_cons, List.map_cons,
      List.sum_cons]
    omega

/-- There is one diagnostic for each rule that is not ready. -/
lemma length_rejected (rules : List Rule) (options : RunOptions) :
    (ofRules rules options).rejected.length = rules.countP (·.ready.toOption.isNone) := by
  simp only [ofRules]
  induction rules with
  | nil => rfl
  | cons rule rules ih =>
    cases ready : rule.ready with
    | ok _ =>
      rw [List.filterMap_cons_none (by rw [ready]),
        List.countP_cons_of_neg (by rw [ready]; exact nofun), ih]
    | error failure =>
      rw [List.filterMap_cons_some (by rw [ready]), List.countP_cons_of_pos (by rw [ready]; rfl),
        List.length_cons, ih]

/-- The report of a run accounts for each document in its order, and for all diagnostics. -/
theorem run_accounts (rules : List Rule) (options : RunOptions) (documents : List Manifest)
    (values : ValuesTree) :
    let extractor := ofRules rules options
    let run := extractor.run documents values
    run.documents.map (·.name) = documents.map (·.name) ∧
    run.report.documents.map (·.1) = documents.map (·.name) ∧
    (∃ diagnosed warned : List (List Diagnostic),
      run.report.diagnostics = extractor.rejected ++ diagnosed.flatten ∧
      run.report.warnings = warned.flatten ∧
      diagnosed.length = documents.length ∧ warned.length = documents.length ∧
      ∀ i document, documents[i]? = some document →
        ∃ output state diagnostics warnings, run.documents[i]? = some output ∧
          run.report.documents[i]? = some (document.name, state) ∧
          diagnosed[i]? = some diagnostics ∧ warned[i]? = some warnings ∧
          Accounts extractor (extractor.treatAll (documents.take i) (.ofValues values)).1 document
            output state diagnostics warnings) ∧
    run.report.diagnostics.length = rules.countP (·.ready.toOption.isNone) +
      run.report.skippedFor .undecodable + (run.report.documents.map (·.2.failures)).sum := by
  intro extractor run
  obtain ⟨after, fates, runs⟩ := exists_runs extractor documents values
  obtain ⟨outputs, -, -, report⟩ := run_of_runs runs
  refine ⟨run_names extractor documents values, ?_,
    ⟨fates.map (·.diagnostics), fates.map (·.warnings), ?_, ?_, ?_, ?_, ?_⟩, ?_⟩
  · rw [report, List.map_map]
    exact runs.names
  · rw [report, List.flatMap_def]
  · rw [report, ← List.flatMap_def]
  · rw [List.length_map, runs.length]
  · rw [List.length_map, runs.length]
  · intro i document here
    obtain ⟨middle, fate, there, treats⟩ := runs.treats here
    refine ⟨fate.document, fate.state, fate.diagnostics, fate.warnings, ?_, ?_, ?_, ?_,
      treats.accounts⟩
    · rw [outputs, List.getElem?_map, there, Option.map_some]
    · rw [report, List.getElem?_map, there, Option.map_some, treats.name]
    · rw [List.getElem?_map, there, Option.map_some]
    · rw [List.getElem?_map, there, Option.map_some]
  · rw [report, List.length_append, length_rejected, runs.count, Report.skippedFor, List.countP_map,
      List.map_map, Nat.add_assoc]
    rfl

end Extractor

end ChartLift
