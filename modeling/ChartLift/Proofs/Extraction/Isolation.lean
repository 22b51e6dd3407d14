import ChartLift.Proofs.Extraction.Turn
import Mathlib.Data.List.Forall2
import Mathlib.Data.List.Induction

/-!
# Isolation of failing rules

A rule whose applications all fail before they store anything leaves no trace in a run but its own
records: without it the documents, the values and the records of the other rules are the same
(`Extractor.run_without_rule`). What is left out of the records is told by `Omits`.
-/

namespace ChartLift

/-! ## Records left out -/

/-- Records from which some are left out, all of them with a property. -/
inductive Omits (p : Diagnostic → Prop) : List Diagnostic → List Diagnostic → Prop where
  | nil :
    Omits p [] []
  | kept {diagnostic whole rest} :
    Omits p whole rest →
    Omits p (diagnostic :: whole) (diagnostic :: rest)
  | left {diagnostic whole rest} :
    p diagnostic →
    Omits p whole rest →
    Omits p (diagnostic :: whole) rest

namespace Omits

variable {p : Diagnostic → Prop} {whole whole' rest rest' : List Diagnostic}

lemma refl (whole : List Diagnostic) : Omits p whole whole := by
  induction whole with
  | nil => exact .nil
  | cons _ _ ih => exact .kept ih

lemma append (h : Omits p whole rest) (h' : Omits p whole' rest') :
    Omits p (whole ++ whole') (rest ++ rest') := by
  induction h with
  | nil => exact h'
  | kept _ ih => exact .kept ih
  | left out _ ih => exact .left out ih

lemma imp {q : Diagnostic → Prop} (weaker : ∀ diagnostic, p diagnostic → q diagnostic)
    (h : Omits p whole rest) : Omits q whole rest := by
  induction h with
  | nil => exact .nil
  | kept _ ih => exact .kept ih
  | left out _ ih => exact .left (weaker _ out) ih

/-- A selection of records leaves out no others. -/
lemma filter (q : Diagnostic → Bool) (h : Omits p whole rest) :
    Omits p (whole.filter q) (rest.filter q) := by
  induction h with
  | nil => exact .nil
  | @kept diagnostic _ _ _ ih =>
    by_cases chosen : q diagnostic = true
    · rw [List.filter_cons_of_pos chosen, List.filter_cons_of_pos chosen]
      exact .kept ih
    · rwa [List.filter_cons_of_neg chosen, List.filter_cons_of_neg chosen]
  | @left diagnostic _ _ out _ ih =>
    by_cases chosen : q diagnostic = true
    · rw [List.filter_cons_of_pos chosen]
      exact .left out ih
    · rwa [List.filter_cons_of_neg chosen]

/-- A selection of records that passes over all that may be left out selects the same. -/
lemma filter_eq {q : Diagnostic → Bool} (h : Omits p whole rest)
    (other : ∀ diagnostic, p diagnostic → q diagnostic = false) :
    whole.filter q = rest.filter q := by
  induction h with
  | nil => rfl
  | kept _ ih => rw [List.filter_cons, List.filter_cons, ih]
  | @left diagnostic _ _ out _ ih =>
    rw [List.filter_cons_of_neg (Bool.eq_false_iff.mp (other diagnostic out)), ih]

end Omits

namespace Extractor

/-! ## Without a rule -/

section Applied

variable {document : Manifest} {object : Value} {tree : Yaml.Layout.Tree} {rule : ReadyRule}
  {first rest : List ReadyRule} {store after : Store} {plan grown : Rewrite.Plan}
  {faults : List Diagnostic} {fault : RuleFault}

/-- An application that fails before it stores is never worth only a warning. -/
lemma tolerates_eq_false_of_early (options : RunOptions)
    (ends : Application.Ends document object tree rule store plan after grown (some fault))
    (early : Application.isEarly fault.stage = true) :
    tolerates options fault.failure = false := by
  cases ends with
  | unread => rfl
  | unrendered => rfl
  | unstored _ _ refused =>
    rcases Store.put_eq_error refused with ⟨_, _, rfl⟩ | ⟨_, rfl⟩ <;> rfl
  | unmatched => cases early
  | overlapping => cases early

/-- A rule that fails before it stores can be left out. -/
lemma Applied.without (options : RunOptions)
    (h : Applied document object tree (first ++ rule :: rest) store plan after grown faults)
    (fails : (Application.run document object tree rule
      (applyAll options document object tree first store plan).store
      (applyAll options document object tree first store plan).plan).FailsEarly) :
    ∃ ahead fault behind, faults = ahead ++ record document rule fault :: behind ∧
      tolerates options fault.failure = false ∧
      Applied document object tree (first ++ rest) store plan after grown (ahead ++ behind) := by
  obtain ⟨middle, between, ahead, _, before, onward, rfl⟩ := applied_append_iff.mp h
  obtain ⟨rfl, rfl, -⟩ := (applied_iff options).mp before
  obtain ⟨fault, failed, early⟩ := fails
  cases onward with
  | done ends _ =>
    rw [(Application.ends_iff.mp ends).2.2] at failed
    cases failed
  | failed ends behind =>
    rw [(Application.ends_iff.mp ends).2.2] at failed
    cases failed
    obtain ⟨rfl, rfl⟩ := ends.unchanged_of_early early
    exact ⟨ahead, fault, _, rfl, tolerates_eq_false_of_early options ends early,
      applied_append_iff.mpr ⟨_, _, _, _, before, behind, rfl⟩⟩

end Applied

/-- Fates of a document with and without a rule: only records of this rule are left out, as far as
records are about rules. -/
structure Spares (label : String) (whole rest : Fate) : Prop where
  document : whole.document = rest.document
  warnings : whole.warnings = rest.warnings
  diagnostics : Omits (·.rule = some label) (whole.diagnostics.filter (·.rule.isSome))
    (rest.diagnostics.filter (·.rule.isSome))

lemma Spares.refl (label : String) (fate : Fate) : Spares label fate fate :=
  ⟨rfl, rfl, .refl _⟩

section Treats

variable {options : RunOptions} {earlier later : List ReadyRule} {optional : Option ReadyRule}
  {rejected : List Diagnostic} {document : Manifest} {store after : Store} {fate : Fate}
  {label : String}

/-- A rule among others is not about a document, or stands among those that are. -/
lemma selecting_optional (options : RunOptions) (earlier later : List ReadyRule)
    (optional : Option ReadyRule) (rejected rejected' : List Diagnostic)
    (decoded : Manifest.Decoded) :
    selecting ⟨earlier ++ optional.toList ++ later, rejected, options⟩ decoded =
        selecting ⟨earlier ++ later, rejected', options⟩ decoded ∨
      ∃ rule, optional = some rule ∧ rule.rule.selects decoded.selector = true ∧
        selecting ⟨earlier ++ optional.toList ++ later, rejected, options⟩ decoded =
          earlier.filter (·.rule.selects decoded.selector) ++
            rule :: later.filter (·.rule.selects decoded.selector) ∧
        selecting ⟨earlier ++ later, rejected', options⟩ decoded =
          earlier.filter (·.rule.selects decoded.selector) ++
            later.filter (·.rule.selects decoded.selector) := by
  cases optional with
  | none => exact .inl (by simp [selecting])
  | some rule =>
    by_cases selects : rule.rule.selects decoded.selector = true
    · exact .inr ⟨rule, rfl, selects, by simp [selecting, selects], List.filter_append ..⟩
    · exact .inl (by simp [selecting, selects])

/-- A document fares the same without a rule that fails on it before it stores. -/
lemma Treats.without (rejected' : List Diagnostic)
    (h : Treats ⟨earlier ++ optional.toList ++ later, rejected, options⟩ document store after fate)
    (labelled : ∀ rule ∈ optional, rule.rule.display = label)
    (fails : ∀ rule ∈ optional, ∀ decoded tree, Decodes document decoded →
      decoded.tree? = some tree → rule.rule.selects decoded.selector = true →
      let before := applyAll options document decoded.object tree
        (earlier.filter (·.rule.selects decoded.selector)) store .empty
      (Application.run document decoded.object tree rule before.store before.plan).FailsEarly) :
    ∃ fate', Treats ⟨earlier ++ later, rejected', options⟩ document store after fate' ∧
      Spares label fate fate' := by
  cases h with
  | skipped skip => exact ⟨_, .skipped skip, .refl _ _⟩
  | undecodable consider decode => exact ⟨_, .undecodable consider decode, .refl _ _⟩
  | unmatched decodes none =>
    refine ⟨_, .unmatched decodes ?_, .refl _ _⟩
    simp only [selecting, List.filter_append, List.append_eq_nil_iff] at none ⊢
    exact ⟨none.1.1, none.2⟩
  | @unindexed decoded decodes _ tree =>
    cases quiet : selecting ⟨earlier ++ later, rejected', options⟩ decoded with
    | nil => exact ⟨_, .unmatched decodes quiet, rfl, rfl, .refl _⟩
    | cons rule rules =>
      exact ⟨_, .unindexed decodes (by simp [quiet]) tree, .refl _ _⟩
  | @rewritten _ plan decoded tree faults decodes busy indexed applied =>
    rcases selecting_optional options earlier later optional rejected rejected' decoded with
      same | ⟨rule, rfl, selects, whole, rest⟩
    · rw [same] at applied
      obtain ⟨state, treats⟩ := Treats.of_applied decodes indexed applied
      exact ⟨_, treats, rfl, rfl, .refl _⟩
    · rw [whole] at applied
      obtain ⟨ahead, fault, behind, rfl, severe, applied⟩ :=
        applied.without options (fails rule rfl decoded tree decodes indexed selects)
      rw [← rest] at applied
      obtain ⟨state, treats⟩ := Treats.of_applied decodes indexed applied
      have omits : Omits (fun diagnostic => diagnostic.rule = some label ∧
          tolerates options diagnostic.failure = false)
          (ahead ++ record document rule fault :: behind) (ahead ++ behind) :=
        (Omits.refl ahead).append
          (.left ⟨congrArg some (labelled rule rfl), severe⟩ (Omits.refl behind))
      refine ⟨_, treats, rfl, ?_, ?_⟩
      -- the record that is left out is no warning
      · exact omits.filter_eq fun _ out => out.2
      · exact ((omits.filter _).filter _).imp fun _ out => out.1

end Treats

section Runs

variable {options : RunOptions} {earlier later : List ReadyRule} {optional : Option ReadyRule}
  {rejected : List Diagnostic} {documents : List Manifest} {values : ValuesTree}
  {after : Store} {fates fates' : List Fate} {label : String}

/-- A run goes the same without a rule whose turns all fail before they store. -/
lemma Runs.without (rejected' : List Diagnostic)
    (h : Runs ⟨earlier ++ optional.toList ++ later, rejected, options⟩ documents
      (.ofValues values) after fates)
    (labelled : ∀ rule ∈ optional, rule.rule.display = label)
    (fails : ∀ turn : Turn,
      turn.Of ⟨earlier ++ optional.toList ++ later, rejected, options⟩ documents →
      turn.rulesBefore = earlier → optional = some turn.rule →
      (turn.application ⟨earlier ++ optional.toList ++ later, rejected, options⟩
        values).FailsEarly) :
    ∃ fates',
      Runs ⟨earlier ++ later, rejected', options⟩ documents (.ofValues values) after fates' ∧
      List.Forall₂ (Spares label) fates fates' := by
  -- the last document finds the store that the documents before it lead to, as its turns do
  induction documents using List.reverseRecOn generalizing after fates with
  | nil =>
    cases h
    exact ⟨[], .nil, .nil⟩
  | append_singleton documents document ih =>
    obtain ⟨store, fates, _, first, last, rfl⟩ := runs_append_iff.mp h
    obtain ⟨fates', first', spares⟩ := ih first fun turn of => fails turn (of.append [document])
    obtain ⟨rfl, -⟩ := runs_iff.mp first
    cases last with
    | cons treats rest =>
      cases rest
      obtain ⟨fate', treats', spare⟩ := treats.without rejected' labelled
        fun rule here decoded tree decodes indexed selects =>
          fails ⟨documents, document, decoded, tree, earlier, rule⟩
            ⟨⟨[], rfl⟩, decodes, indexed, ⟨later, by cases here; simp⟩, selects⟩ rfl here
      exact ⟨_, runs_append_iff.mpr ⟨_, _, _, first', .cons treats' .nil, rfl⟩,
        List.rel_append spares (.cons spare .nil)⟩

/-- The documents and the warnings of a whole run are the same. -/
lemma outputs_of_spares (h : List.Forall₂ (Spares label) fates fates') :
    fates.map (·.document) = fates'.map (·.document) ∧
      fates.flatMap (·.warnings) = fates'.flatMap (·.warnings) := by
  induction h with
  | nil => exact ⟨rfl, rfl⟩
  | cons spare _ ih =>
    rw [List.map_cons, List.map_cons, List.flatMap_cons, List.flatMap_cons, spare.document,
      spare.warnings, ih.1, ih.2]
    exact ⟨rfl, rfl⟩

/-- Of the records of a whole run, only those of the rule are left out. -/
lemma omits_of_spares (h : List.Forall₂ (Spares label) fates fates') :
    Omits (·.rule = some label) ((fates.flatMap (·.diagnostics)).filter (·.rule.isSome))
      ((fates'.flatMap (·.diagnostics)).filter (·.rule.isSome)) := by
  induction h with
  | nil => exact .nil
  | cons spare _ ih =>
    rw [List.flatMap_cons, List.flatMap_cons, List.filter_append, List.filter_append]
    exact spare.diagnostics.append ih

end Runs

/-! ## Lists of rules -/

/-- What is on record about a rule that is not ready. -/
def rejection? (rule : Rule) : Option Diagnostic :=
  match rule.ready with
  | .ok _ => none
  | .error failure => some ⟨.compile, none, some rule.display, failure, none⟩

/-- The rules of two lists are ready or on record one after the other. -/
lemma ofRules_append (before after : List Rule) (options : RunOptions) :
    ofRules (before ++ after) options =
      ⟨before.filterMap (·.ready.toOption) ++ after.filterMap (·.ready.toOption),
        before.filterMap rejection? ++ after.filterMap rejection?, options⟩ := by
  simp only [ofRules, List.filterMap_append]
  rfl

/-- A rule among others is ready or on record, and so are the others. -/
lemma ofRules_append_cons (before after : List Rule) (rule : Rule) (options : RunOptions) :
    ofRules (before ++ rule :: after) options =
      ⟨before.filterMap (·.ready.toOption) ++ rule.ready.toOption.toList ++
          after.filterMap (·.ready.toOption),
        before.filterMap rejection? ++ (rejection? rule).toList ++ after.filterMap rejection?,
        options⟩ := by
  rw [ofRules_append, List.filterMap_cons, List.filterMap_cons, List.append_assoc,
    List.append_assoc]
  cases rule.ready.toOption <;> cases rejection? rule <;> rfl

/-- Of what is on record about rules that are not ready, a rule names its own part. -/
lemma omits_rejected (before after : List Rule) (rule : Rule) (options : RunOptions) :
    Omits (·.rule = some rule.display) (ofRules (before ++ rule :: after) options).rejected
      (ofRules (before ++ after) options).rejected := by
  rw [ofRules_append_cons, ofRules_append]
  refine Omits.append ?_ (.refl _)
  cases found : rejection? rule with
  | none =>
    rw [Option.toList_none, List.append_nil]
    exact .refl _
  | some diagnostic =>
    have named : diagnostic.rule = some rule.display := by
      rw [rejection?] at found
      split at found
      · cases found
      · cases found
        rfl
    simpa using (Omits.refl (before.filterMap rejection?)).append (.left named .nil)

lemma ready_eq_ok {rule : Rule} {ready : ReadyRule} (h : ready ∈ rule.ready.toOption) :
    rule.ready = .ok ready := by
  cases read : rule.ready with
  | error => rw [read] at h; cases h
  | ok => rw [read] at h; cases h; rfl

lemma rule_of_ready {rule : Rule} {ready : ReadyRule} (h : rule.ready = .ok ready) :
    ready.rule = rule := by
  rw [Rule.ready] at h
  split at h
  · cases h
  · split at h
    · cases h
    · cases h
      rfl

/-- A rule whose turns all fail before they store anything leaves no trace but its own records:
without it, wherever it stands, the run leaves the same documents and values, the same warnings, and
the same diagnostics about the other rules, in the same order. -/
theorem run_without_rule {before after : List Rule} {rule : Rule} {options : RunOptions}
    {documents : List Manifest} {values : ValuesTree}
    (fails : ∀ turn : Turn, turn.Of (ofRules (before ++ rule :: after) options) documents →
      turn.rulesBefore = before.filterMap (·.ready.toOption) → rule.ready = .ok turn.rule →
      (turn.application (ofRules (before ++ rule :: after) options) values).FailsEarly) :
    let whole := (ofRules (before ++ rule :: after) options).run documents values
    let rest := (ofRules (before ++ after) options).run documents values
    let about := fun report : Report => report.diagnostics.filter (·.rule.isSome)
    rest.documents = whole.documents ∧ rest.values = whole.values ∧
      rest.valuesDocument = whole.valuesDocument ∧
      rest.report.warnings = whole.report.warnings ∧
      (about rest.report).filter (·.rule != some rule.display) =
        (about whole.report).filter (·.rule != some rule.display) ∧
      Omits (·.rule = some rule.display) (about whole.report) (about rest.report) := by
  intro whole rest about
  obtain ⟨store, fates, runs⟩ :=
    exists_runs (ofRules (before ++ rule :: after) options) documents values
  obtain ⟨outputs, tree, file, report⟩ := run_of_runs runs
  have labelled : ∀ ready ∈ rule.ready.toOption, ready.rule.display = rule.display := by
    intro ready here
    rw [rule_of_ready (ready_eq_ok here)]
  have rejected := omits_rejected before after rule options
  rw [ofRules_append_cons] at fails runs
  obtain ⟨fates', runs', spares⟩ := runs.without
    (before.filterMap rejection? ++ after.filterMap rejection?) labelled
    fun turn of place here => fails turn of place (ready_eq_ok here)
  rw [← ofRules_append] at runs'
  obtain ⟨outputs', tree', file', report'⟩ := run_of_runs runs'
  obtain ⟨documents_eq, warnings_eq⟩ := outputs_of_spares spares
  have omits : Omits (·.rule = some rule.display) (about whole.report) (about rest.report) := by
    simp only [about, whole, rest, report, report', List.filter_append]
    exact (rejected.filter _).append (omits_of_spares spares)
  refine ⟨?_, ?_, ?_, ?_, ?_, omits⟩
  · rw [outputs, outputs', documents_eq]
  · rw [tree, tree']
  · rw [file, file']
    rfl
  · rw [report, report', warnings_eq]
  · exact (omits.filter_eq fun diagnostic out => by simp [out]).symm

/-- A rule whose key runs through a value that another rule stores leaves no trace. -/
theorem run_without_rule_small :
    let before := [Rule.ofField "a" "k"]
    let after := [Rule.ofField "b" "l"]
    let rule := Rule.ofField "b" "k.x"
    let options : RunOptions := ⟨false, valuesName⟩
    let documents := [Manifest.small]
    let values : ValuesTree := ⟨[]⟩
    (∀ turn : Turn, turn.Of (ofRules (before ++ rule :: after) options) documents →
      turn.rulesBefore = before.filterMap (·.ready.toOption) → rule.ready = .ok turn.rule →
      (turn.application (ofRules (before ++ rule :: after) options) values).FailsEarly) ∧
      let whole := (ofRules (before ++ rule :: after) options).run documents values
      let rest := (ofRules (before ++ after) options).run documents values
      let about := fun report : Report => report.diagnostics.filter (·.rule.isSome)
      rest.documents = whole.documents ∧ rest.values = whole.values ∧
        rest.valuesDocument = whole.valuesDocument ∧
        rest.report.warnings = whole.report.warnings ∧
        (about rest.report).filter (·.rule != some rule.display) =
          (about whole.report).filter (·.rule != some rule.display) ∧
        Omits (·.rule = some rule.display) (about whole.report) (about rest.report) := by
  intro before after rule options documents values
  have fails : ∀ turn : Turn, turn.Of (ofRules (before ++ rule :: after) options) documents →
      turn.rulesBefore = before.filterMap (·.ready.toOption) → rule.ready = .ok turn.rule →
      (turn.application (ofRules (before ++ rule :: after) options) values).FailsEarly := by
    intro turn of place readied
    -- nothing about the turn is left open, so that its end can be computed
    have applied : ((Turn.application ⟨[], .small, Manifest.small.decoded, Manifest.small.tree,
        before.filterMap (·.ready.toOption), rule.ready.toOption.get (by decide +kernel)⟩
        (ofRules (before ++ rule :: after) options) values).fault.any
        (Application.isEarly ·.stage)) = true := by decide +kernel
    rw [of.eq_of_singleton Manifest.small.decodes Manifest.small.indexed, place]
    simp only [readied, Except.toOption, Option.get_some] at applied
    obtain ⟨fault, failed, early⟩ := Option.any_eq_true _ _ |>.mp applied
    exact ⟨fault, failed, early⟩
  exact ⟨fails, run_without_rule fails⟩

end Extractor

end ChartLift
