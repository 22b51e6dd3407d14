import ChartLift.Extraction.Run
import ChartLift.Proofs.Extraction.Application
import Mathlib.Data.List.Induction

/-!
# The course of a run

A run as relations between what it starts from and what it leaves: `Applied` for the rules on one
document, `Treats` for what may become of a document, and `Runs` for documents one after the other.
Each holds exactly of what the run computes (`applied_iff`, `treats_iff`, `runs_iff`), so that
properties of runs are proved by induction on these. What deposits keep is kept throughout
(`Runs.keeps`), and a run splits at every document (`runs_append_iff`). What holds in the end and did
not hold at the start some rule brings about (`Applied.exists_step`), on some document
(`Runs.exists_treats`).
-/

namespace ChartLift

/-- What became of a document, notes aside. -/
structure Fate where
  document : Manifest
  state : DocumentState
  diagnostics : List Diagnostic
  warnings : List Diagnostic

/-- What is on record about a treated document. -/
def Treated.fate (treated : Treated) : Fate :=
  ⟨treated.document, treated.state, treated.diagnostics, treated.warnings⟩

namespace Extractor

/-- What is on record about a rule that failed on a document. -/
def record (document : Manifest) (rule : ReadyRule) (fault : RuleFault) : Diagnostic :=
  ⟨fault.stage, some document.name, some rule.rule.display, fault.failure, fault.orphan⟩

/-- Rules applied to a document one after the other, with the failures on record. -/
inductive Applied (document : Manifest) (object : Value) (tree : Yaml.Layout.Tree) :
    List ReadyRule → Store → Rewrite.Plan → Store → Rewrite.Plan → List Diagnostic → Prop where
  | nil {store plan} :
    Applied document object tree [] store plan store plan []
  | done {rule rules store plan store' plan' after grown faults} :
    Application.Ends document object tree rule store plan store' plan' none →
    Applied document object tree rules store' plan' after grown faults →
    Applied document object tree (rule :: rules) store plan after grown faults
  | failed {rule rules store plan store' plan' fault after grown faults} :
    Application.Ends document object tree rule store plan store' plan' (some fault) →
    Applied document object tree rules store' plan' after grown faults →
    Applied document object tree (rule :: rules) store plan after grown
      (record document rule fault :: faults)

section Applied

variable {document : Manifest} {object : Value} {tree : Yaml.Layout.Tree} {rule : ReadyRule}
  {rules rules' : List ReadyRule} {store after : Store} {plan grown : Rewrite.Plan}
  {faults : List Diagnostic}

/-- Applying rules comes to what `Applied` says. -/
lemma applied_iff (options : RunOptions) :
    Applied document object tree rules store plan after grown faults ↔
      (applyAll options document object tree rules store plan).store = after ∧
      (applyAll options document object tree rules store plan).plan = grown ∧
      (applyAll options document object tree rules store plan).faults = faults := by
  induction rules generalizing store plan after grown faults with
  | nil =>
    constructor
    · intro h; cases h; exact ⟨rfl, rfl, rfl⟩
    · rintro ⟨rfl, rfl, rfl⟩; exact .nil
  | cons rule rules ih =>
    constructor
    · intro h
      cases h with
      | done ends rest =>
        obtain ⟨rfl, rfl, fine⟩ := Application.ends_iff.mp ends
        obtain ⟨rfl, rfl, rfl⟩ := ih.mp rest
        simp [applyAll, fine]
      | failed ends rest =>
        obtain ⟨rfl, rfl, fault⟩ := Application.ends_iff.mp ends
        obtain ⟨rfl, rfl, rfl⟩ := ih.mp rest
        simp [applyAll, fault, record]
    · rintro ⟨rfl, rfl, rfl⟩
      let applied := Application.run document object tree rule store plan
      have ends : Application.Ends document object tree rule store plan applied.store applied.plan
          applied.fault := Application.ends_run
      have rest : Applied document object tree rules applied.store applied.plan _ _ _ :=
        ih.mpr ⟨rfl, rfl, rfl⟩
      cases fault : applied.fault with
      | none =>
        rw [fault] at ends
        simpa [applyAll, applied, fault] using Applied.done ends rest
      | some failed =>
        rw [fault] at ends
        simpa [applyAll, applied, fault, record] using Applied.failed ends rest

/-- Rules are applied as any two portions of them. -/
lemma applied_append_iff :
    Applied document object tree (rules ++ rules') store plan after grown faults ↔
      ∃ middle between first second,
        Applied document object tree rules store plan middle between first ∧
        Applied document object tree rules' middle between after grown second ∧
        faults = first ++ second := by
  constructor
  · intro h
    induction rules generalizing store plan faults with
    | nil => exact ⟨store, plan, [], faults, .nil, h, rfl⟩
    | cons rule rules ih =>
      cases h with
      | done ends rest =>
        obtain ⟨middle, between, first, second, h, h', rfl⟩ := ih rest
        exact ⟨middle, between, first, second, .done ends h, h', rfl⟩
      | failed ends rest =>
        obtain ⟨middle, between, first, second, h, h', rfl⟩ := ih rest
        exact ⟨middle, between, _ :: first, second, .failed ends h, h', rfl⟩
  · rintro ⟨middle, between, first, second, h, h', rfl⟩
    induction h with
    | nil => exact h'
    | done ends _ ih => exact .done ends (ih h')
    | failed ends _ ih => exact .failed ends (ih h')

/-- What deposits keep, applying rules keeps. -/
lemma Applied.keeps {P : Store → Prop}
    (keeps : ∀ {store after key literal document}, P store →
      store.Puts key literal document after → P after)
    (h : Applied document object tree rules store plan after grown faults) (start : P store) :
    P after := by
  induction h with
  | nil => exact start
  | done ends _ ih => exact ih (ends.keeps keeps start)
  | failed ends _ ih => exact ih (ends.keeps keeps start)

/-- One rule is applied as its application ends. -/
lemma applied_singleton_iff :
    Applied document object tree [rule] store plan after grown faults ↔
      ∃ fault, Application.Ends document object tree rule store plan after grown fault ∧
        faults = (fault.map (record document rule)).toList := by
  constructor
  · intro h
    cases h with
    | done ends rest => cases rest; exact ⟨none, ends, rfl⟩
    | failed ends rest => cases rest; exact ⟨some _, ends, rfl⟩
  · rintro ⟨fault, ends, rfl⟩
    cases fault with
    | none => exact .done ends .nil
    | some fault => exact .failed ends .nil

/-- What does not hold before rules are applied and does behind them, one of them brings about. -/
lemma Applied.exists_step {P : Store → Rewrite.Plan → List Diagnostic → Prop}
    (h : Applied document object tree rules store plan after grown faults)
    (fresh : ¬ P store plan []) (holds : P after grown faults) :
    ∃ first rule rest middle between earlier store' plan' fault,
      rules = first ++ rule :: rest ∧
      Applied document object tree first store plan middle between earlier ∧
      Application.Ends document object tree rule middle between store' plan' fault ∧
      ¬ P middle between earlier ∧
      P store' plan' (earlier ++ (fault.map (record document rule)).toList) := by
  induction rules using List.reverseRecOn generalizing after grown faults with
  | nil => cases h; exact absurd holds fresh
  | append_singleton rules rule ih =>
    obtain ⟨middle, between, first, second, ahead, last, rfl⟩ := applied_append_iff.mp h
    obtain ⟨fault, ends, rfl⟩ := applied_singleton_iff.mp last
    by_cases before : P middle between first
    · obtain ⟨first', rule', rest, _, _, _, _, _, _, rfl, ahead, ends, step⟩ := ih ahead before
      exact ⟨first', rule', rest ++ [rule], _, _, _, _, _, _, by simp, ahead, ends, step⟩
    · exact ⟨rules, rule, [], _, _, _, _, _, _, rfl, ahead, ends, before, holds⟩

/-- Every planned patch was planned before, or an application without a fault has planned it. -/
lemma Applied.planned_of_mem {entry : Rewrite.Patch × String}
    (h : Applied document object tree rules store plan after grown faults)
    (mem : entry ∈ grown.entries) :
    entry ∈ plan.entries ∨ ∃ first rule rest middle between faults' store' plan',
      rules = first ++ rule :: rest ∧
        Applied document object tree first store plan middle between faults' ∧
        Application.Ends document object tree rule middle between store' plan' none ∧
        Application.Plans document object tree rule entry := by
  by_cases old : entry ∈ plan.entries
  · exact .inl old
  · obtain ⟨_, _, _, _, _, _, _, _, fault, split, ahead, ends, fresh, mem⟩ :=
      h.exists_step (P := fun _ plan _ => entry ∈ plan.entries) old mem
    obtain ⟨rfl, plans⟩ := (ends.planned_of_mem mem).resolve_left fresh
    exact .inr ⟨_, _, _, _, _, _, _, _, split, ahead, ends, plans⟩

/-- Applying rules only adds to a plan. -/
lemma Applied.prefix_entries (h : Applied document object tree rules store plan after grown faults) :
    plan.entries <+: grown.entries := by
  induction h with
  | nil => exact List.prefix_rfl
  | done ends _ ih => exact ends.prefix_entries.trans ih
  | failed ends _ ih => exact ends.prefix_entries.trans ih

/-- Applying rules brings no overlaps into a plan. -/
lemma Applied.disjoint (h : Applied document object tree rules store plan after grown faults)
    (disjoint : plan.Disjoint) : grown.Disjoint := by
  induction h with
  | nil => exact disjoint
  | done ends _ ih => exact ih (ends.disjoint disjoint)
  | failed ends _ ih => exact ih (ends.disjoint disjoint)

end Applied

/-- A document is what its plan makes of it, also if nothing is planned. -/
lemma rewrite_eq (document : Manifest) (plan : Rewrite.Plan) :
    rewrite document plan = ⟨document.name, plan.apply document.raw⟩ := by
  rw [rewrite]
  split
  · next none =>
    rw [Rewrite.Plan.apply_of_size_eq_zero none]
  · rfl

/-- A document whose name does not exclude it, with what it decodes to. -/
structure Decodes (document : Manifest) (decoded : Manifest.Decoded) : Prop where
  considered : skipReason? document = none
  decoded : document.decode = .ok decoded

lemma Decodes.unique {document : Manifest} {decoded decoded' : Manifest.Decoded}
    (h : Decodes document decoded) (h' : Decodes document decoded') : decoded = decoded' := by
  have e := h.decoded
  rw [h'.decoded] at e
  cases e
  rfl

lemma Decodes.of_isSome {document : Manifest} (considered : skipReason? document = none)
    (ok : document.decode.toOption.isSome = true) :
    Decodes document (document.decode.toOption.get ok) where
  considered := considered
  decoded := by
    obtain ⟨decoded, read⟩ : ∃ decoded, document.decode = .ok decoded := by
      cases read : document.decode with
      | error fault => rw [read] at ok; cases ok
      | ok decoded => exact ⟨decoded, rfl⟩
    simp only [read, Except.toOption, Option.get_some]

/-- The rules that are about a decoded document. -/
def selecting (extractor : Extractor) (decoded : Manifest.Decoded) : List ReadyRule :=
  extractor.rules.filter (·.rule.selects decoded.selector)

/-- Whether a failure on record is only worth a warning. -/
def isWarning (extractor : Extractor) (diagnostic : Diagnostic) : Bool :=
  tolerates extractor.options diagnostic.failure

/-- What may become of a document, from the store before it. -/
inductive Treats (extractor : Extractor) (document : Manifest) : Store → Store → Fate → Prop where
  | skipped {store reason} :
    skipReason? document = some reason →
    Treats extractor document store store ⟨document, .skipped reason, [], []⟩
  | undecodable {store fault} :
    skipReason? document = none →
    document.decode = .error fault →
    Treats extractor document store store ⟨document, .skipped .undecodable,
      [⟨.decode, some document.name, none, .decode fault, none⟩], []⟩
  | unmatched {store decoded} :
    Decodes document decoded →
    extractor.selecting decoded = [] →
    Treats extractor document store store ⟨document, .unmatched, [], []⟩
  | unindexed {store decoded} :
    Decodes document decoded →
    extractor.selecting decoded ≠ [] →
    decoded.tree? = none →
    Treats extractor document store store ⟨document, .skipped .undecodable,
      [⟨.parse, some document.name, none, .unindexed, none⟩], []⟩
  | rewritten {store after plan decoded tree faults} :
    Decodes document decoded →
    extractor.selecting decoded ≠ [] →
    decoded.tree? = some tree →
    Applied document decoded.object tree (extractor.selecting decoded) store .empty after plan
      faults →
    Treats extractor document store after ⟨rewrite document plan,
      .rewritten plan.size (faults.filter (!extractor.isWarning ·)).length,
      faults.filter (!extractor.isWarning ·), faults.filter extractor.isWarning⟩

section Treats

variable {extractor : Extractor} {document : Manifest} {store after : Store} {fate : Fate}

lemma Treats.name {document : Manifest} {fate : Fate}
    (h : Treats extractor document store after fate) : fate.document.name = document.name := by
  cases h with
  | rewritten => rw [rewrite_eq]
  | _ => rfl

/-- Something becomes of every document. -/
lemma exists_treats (extractor : Extractor) (document : Manifest) (store : Store) :
    ∃ after fate, Treats extractor document store after fate := by
  cases skip : skipReason? document with
  | some reason => exact ⟨_, _, .skipped skip⟩
  | none =>
    cases decode : document.decode with
    | error fault => exact ⟨_, _, .undecodable skip decode⟩
    | ok decoded =>
      by_cases none : extractor.selecting decoded = []
      · exact ⟨_, _, .unmatched ⟨skip, decode⟩ none⟩
      · cases tree : decoded.tree? with
        | none => exact ⟨_, _, .unindexed ⟨skip, decode⟩ none tree⟩
        | some tree' =>
          exact ⟨_, _, .rewritten ⟨skip, decode⟩ none tree
            ((applied_iff extractor.options).mpr ⟨rfl, rfl, rfl⟩)⟩

/-- A document becomes what `Treats` says, and nothing else. -/
lemma treats_iff : Treats extractor document store after fate ↔
    (extractor.treat document store).1 = after ∧
      (extractor.treat document store).2.fate = fate := by
  have computed : ∀ {after fate}, Treats extractor document store after fate →
      (extractor.treat document store).1 = after ∧
        (extractor.treat document store).2.fate = fate := by
    intro after fate h
    cases h with
    | skipped skip => simp [treat, skip, Treated.fate]
    | undecodable consider decode => simp [treat, consider, decode, Treated.fate, unreadable]
    | unmatched decodes none =>
      rw [selecting] at none
      simp [treat, decodes.considered, decodes.decoded, none, Treated.fate]
    | unindexed decodes busy tree =>
      rw [selecting] at busy
      simp [treat, decodes.considered, decodes.decoded, busy, tree, Treated.fate, unreadable]
    | rewritten decodes busy tree applied =>
      obtain ⟨rfl, rfl, rfl⟩ := (applied_iff extractor.options).mp applied
      rw [selecting] at busy
      simp only [treat, decodes.considered, decodes.decoded, busy, tree, Treated.fate, selecting,
        isWarning, List.isEmpty_iff, ↓reduceIte, true_and]
      rfl
  constructor
  · exact computed
  · rintro ⟨rfl, rfl⟩
    -- there is an end, and the computed one is it
    obtain ⟨after, fate, h⟩ := exists_treats extractor document store
    obtain ⟨rfl, rfl⟩ := computed h
    exact h

lemma Treats.unique {after' : Store} {fate' : Fate}
    (h : Treats extractor document store after fate)
    (h' : Treats extractor document store after' fate') : after = after' ∧ fate = fate' := by
  obtain ⟨rfl, rfl⟩ := treats_iff.mp h
  exact treats_iff.mp h'

/-- A document with a layout tree that some rule is about is rewritten. -/
lemma Treats.rewritten_of_decodes {decoded : Manifest.Decoded} {tree : Yaml.Layout.Tree}
    (h : Treats extractor document store after fate) (decodes : Decodes document decoded)
    (busy : extractor.selecting decoded ≠ []) (indexed : decoded.tree? = some tree) :
    ∃ plan faults,
      Applied document decoded.object tree (extractor.selecting decoded) store .empty after plan
        faults ∧
      fate = ⟨rewrite document plan,
        .rewritten plan.size (faults.filter (!extractor.isWarning ·)).length,
        faults.filter (!extractor.isWarning ·), faults.filter extractor.isWarning⟩ := by
  have applied : Applied document decoded.object tree (extractor.selecting decoded) store .empty
      _ _ _ := (applied_iff extractor.options).mpr ⟨rfl, rfl, rfl⟩
  obtain ⟨rfl, rfl⟩ := h.unique (.rewritten decodes busy indexed applied)
  exact ⟨_, _, applied, rfl⟩

/-- A document with a layout tree fares as its rules are applied, also if there are none. -/
lemma Treats.of_applied {decoded : Manifest.Decoded} {tree : Yaml.Layout.Tree}
    {plan : Rewrite.Plan} {faults : List Diagnostic} (decodes : Decodes document decoded)
    (indexed : decoded.tree? = some tree)
    (applied : Applied document decoded.object tree (extractor.selecting decoded) store .empty after
      plan faults) :
    ∃ state, Treats extractor document store after ⟨rewrite document plan, state,
      faults.filter (!extractor.isWarning ·), faults.filter extractor.isWarning⟩ := by
  cases chosen : extractor.selecting decoded with
  | nil =>
    rw [chosen] at applied
    cases applied
    exact ⟨_, .unmatched decodes chosen⟩
  | cons rule rules => exact ⟨_, .rewritten decodes (by simp [chosen]) indexed applied⟩

/-- What deposits keep, a document keeps. -/
lemma Treats.keeps {P : Store → Prop}
    (keeps : ∀ {store after key literal document}, P store →
      store.Puts key literal document after → P after)
    (h : Treats extractor document store after fate) (start : P store) : P after := by
  cases h with
  | skipped => exact start
  | undecodable => exact start
  | unmatched => exact start
  | unindexed => exact start
  | rewritten _ _ _ applied => exact applied.keeps keeps start

end Treats

/-- Documents taken through a run one after the other. -/
inductive Runs (extractor : Extractor) : List Manifest → Store → Store → List Fate → Prop where
  | nil {store} :
    Runs extractor [] store store []
  | cons {document documents store middle after fate fates} :
    Treats extractor document store middle fate →
    Runs extractor documents middle after fates →
    Runs extractor (document :: documents) store after (fate :: fates)

section Runs

variable {extractor : Extractor} {documents documents' : List Manifest} {store after : Store}
  {fates : List Fate}

/-- The first document is taken through a run, and then the others. -/
lemma treatAll_cons (document : Manifest) (documents : List Manifest) (store : Store) :
    extractor.treatAll (document :: documents) store =
      let first := extractor.treat document store
      let rest := extractor.treatAll documents first.1
      (rest.1, first.2 :: rest.2) := by
  rw [treatAll]

/-- Taking documents through a run comes to what `Runs` says. -/
lemma runs_iff : Runs extractor documents store after fates ↔
    (extractor.treatAll documents store).1 = after ∧
      (extractor.treatAll documents store).2.map Treated.fate = fates := by
  induction documents generalizing store after fates with
  | nil =>
    constructor
    · intro h; cases h; exact ⟨rfl, rfl⟩
    · rintro ⟨rfl, rfl⟩; exact .nil
  | cons document documents ih =>
    constructor
    · intro h
      cases h with
      | cons treats rest =>
        obtain ⟨rfl, rfl⟩ := treats_iff.mp treats
        obtain ⟨rfl, rfl⟩ := ih.mp rest
        simp only [treatAll_cons, List.map_cons, and_self]
    · rintro ⟨rfl, rfl⟩
      simp only [treatAll_cons, List.map_cons]
      exact .cons (treats_iff.mpr ⟨rfl, rfl⟩) (ih.mpr ⟨rfl, rfl⟩)

/-- A run goes through any two portions of its documents one after the other. -/
lemma runs_append_iff :
    Runs extractor (documents ++ documents') store after fates ↔
      ∃ middle first second, Runs extractor documents store middle first ∧
        Runs extractor documents' middle after second ∧ fates = first ++ second := by
  constructor
  · intro h
    induction documents generalizing store fates with
    | nil => exact ⟨store, [], fates, .nil, h, rfl⟩
    | cons document documents ih =>
      cases h with
      | cons treats rest =>
        obtain ⟨middle, first, second, h, h', rfl⟩ := ih rest
        exact ⟨middle, _ :: first, second, .cons treats h, h', rfl⟩
  · rintro ⟨middle, first, second, h, h', rfl⟩
    induction h with
    | nil => exact h'
    | cons treats _ ih => exact .cons treats (ih h')

lemma Runs.keeps {P : Store → Prop}
    (keeps : ∀ {store after key literal document}, P store →
      store.Puts key literal document after → P after)
    (h : Runs extractor documents store after fates) (start : P store) : P after := by
  induction h with
  | nil => exact start
  | cons treats _ ih => exact ih (treats.keeps keeps start)

/-- What becomes of a document follows from what the documents before it lead to. -/
lemma Runs.treats {i : Nat} {document : Manifest}
    (h : Runs extractor documents store after fates) (here : documents[i]? = some document) :
    ∃ middle fate, fates[i]? = some fate ∧
      Treats extractor document (extractor.treatAll (documents.take i) store).1 middle fate := by
  induction h generalizing i with
  | nil => cases here
  | @cons first documents store _ _ fate fates treats _ ih =>
    cases i with
    | zero =>
      cases here
      exact ⟨_, fate, rfl, treats⟩
    | succ i =>
      obtain ⟨middle, fate', there, treats'⟩ := ih here
      obtain ⟨rfl, _⟩ := treats_iff.mp treats
      refine ⟨middle, fate', there, ?_⟩
      rw [List.take_succ_cons, treatAll_cons]
      exact treats'

/-- What does not hold of the store before a run and does behind it, a document brings about. -/
lemma Runs.exists_treats {P : Store → Prop} (h : Runs extractor documents store after fates)
    (fresh : ¬ P store) (holds : P after) :
    ∃ i document middle fate, documents[i]? = some document ∧
      Treats extractor document (extractor.treatAll (documents.take i) store).1 middle fate ∧
      ¬ P (extractor.treatAll (documents.take i) store).1 ∧ P middle := by
  induction h with
  | nil => exact absurd holds fresh
  | @cons document documents store middle _ fate _ treats _ ih =>
    by_cases early : P middle
    · exact ⟨0, document, middle, fate, rfl, treats, fresh, early⟩
    · obtain ⟨i, document', middle', fate', here, treats', late⟩ := ih early holds
      obtain ⟨rfl, -⟩ := treats_iff.mp treats
      refine ⟨i + 1, document', middle', fate', here, ?_⟩
      rw [List.take_succ_cons, treatAll_cons]
      exact ⟨treats', late⟩

lemma Runs.length (h : Runs extractor documents store after fates) :
    fates.length = documents.length := by
  induction h with
  | nil => rfl
  | cons _ _ ih => rw [List.length_cons, List.length_cons, ih]

lemma Runs.names (h : Runs extractor documents store after fates) :
    fates.map (·.document.name) = documents.map (·.name) := by
  induction h with
  | nil => rfl
  | cons treats _ ih => rw [List.map_cons, List.map_cons, treats.name, ih]

/-- What a run comes to, in terms of the fates of its documents. -/
lemma run_of_runs {values : ValuesTree}
    (h : Runs extractor documents (.ofValues values) after fates) :
    (extractor.run documents values).documents = fates.map (·.document) ∧
      (extractor.run documents values).values = after.values ∧
      (extractor.run documents values).valuesDocument =
        ⟨extractor.options.valuesName, Text.bytes after.values.document⟩ ∧
      (extractor.run documents values).report =
        ⟨fates.map fun fate => (fate.document.name, fate.state),
          extractor.rejected ++ fates.flatMap (·.diagnostics), fates.flatMap (·.warnings)⟩ := by
  obtain ⟨rfl, rfl⟩ := runs_iff.mp h
  simp [run, Function.comp_def, Treated.fate, List.flatMap_map]

/-- What is on record in a report is on record about a rule that is not ready or about a document. -/
lemma Runs.exists_of_reported {values : ValuesTree} {diagnostic : Diagnostic}
    (runs : Runs extractor documents (.ofValues values) after fates)
    (reported : diagnostic ∈ (extractor.run documents values).report.diagnostics ++
      (extractor.run documents values).report.warnings) :
    diagnostic ∈ extractor.rejected ∨ ∃ i document middle fate, documents[i]? = some document ∧
      Treats extractor document (extractor.treatAll (documents.take i) (.ofValues values)).1 middle
        fate ∧ diagnostic ∈ fate.diagnostics ++ fate.warnings := by
  rw [(run_of_runs runs).2.2.2] at reported
  simp only [List.mem_append, List.mem_flatMap, or_assoc, ← exists_or, ← and_or_left] at reported
  rcases reported with mem | ⟨fate, mem, recorded⟩
  · exact .inl mem
  · obtain ⟨i, there⟩ := List.getElem?_of_mem mem
    obtain ⟨short, -⟩ := List.getElem?_eq_some_iff.mp there
    have here := List.getElem?_eq_getElem (runs.length ▸ short)
    obtain ⟨middle, fate', there', treats⟩ := runs.treats here
    cases there.symm.trans there'
    exact .inr ⟨i, _, middle, fate, here, treats, List.mem_append.mpr recorded⟩

lemma exists_runs (extractor : Extractor) (documents : List Manifest) (values : ValuesTree) :
    ∃ after fates, Runs extractor documents (.ofValues values) after fates :=
  ⟨_, _, runs_iff.mpr ⟨rfl, rfl⟩⟩

lemma run_names (extractor : Extractor) (documents : List Manifest) (values : ValuesTree) :
    (extractor.run documents values).documents.map (·.name) = documents.map (·.name) := by
  obtain ⟨after, fates, runs⟩ := exists_runs extractor documents values
  rw [(run_of_runs runs).1, List.map_map]
  exact runs.names

lemma run_valuesDocument (extractor : Extractor) (documents : List Manifest) (values : ValuesTree) :
    (extractor.run documents values).valuesDocument = ⟨extractor.options.valuesName,
      Text.bytes (extractor.run documents values).values.document⟩ := by
  obtain ⟨after, fates, runs⟩ := exists_runs extractor documents values
  obtain ⟨-, values, document, -⟩ := run_of_runs runs
  rw [document, values]

end Runs

end Extractor

end ChartLift
