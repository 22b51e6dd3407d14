import ChartLift.Proofs.Extraction.Turn
import ChartLift.Proofs.Rewrite.Match

/-!
# Keys without a reference

An application plans patches for the key that it stores, or it stores nothing, or it has its key on
record as an orphan (`Application.Ends.settlesKey`). So at the end of a run every key that the run has
stored is referred to by a document or listed among the orphans (`Extractor.run_settles_keys`). An
orphan is told from its own application alone: the document refers to the key nevertheless exactly if
another rule has planned patches for it there (`Extractor.orphan_referenced_iff`,
`Extractor.orphan_of_repeated_rule`).
-/

namespace ChartLift

/-! ## Applications -/

namespace Application

variable {document : Manifest} {object : Value} {tree : Yaml.Layout.Tree} {rule : ReadyRule}
  {store after : Store} {plan grown : Rewrite.Plan} {fault : Option RuleFault}

/-- What an application makes of its key: it stores it and plans patches for it, or it changes
nothing, or it stores it as an orphan. -/
structure SettlesKey (object : Value) (rule : ReadyRule) (store : Store) (plan : Rewrite.Plan)
    (after : Store) (grown : Rewrite.Plan) (fault : Option RuleFault) : Prop where
  done : fault = none → ∃ place value key patches,
    object.locate rule.path = .ok (place, value) ∧ rule.template.render object = .ok key ∧
    after.Holds key value.render ∧ patches ≠ [] ∧
    grown.entries = plan.entries ++ patches.map (·, key)
  early : ∀ failed, fault = some failed → isEarly failed.stage = true →
    after = store ∧ grown = plan ∧ failed.orphan = none
  late : ∀ failed, fault = some failed → isEarly failed.stage = false →
    (failed.stage = .find ∨ failed.stage = .plan) ∧ grown = plan ∧ ∃ place value key,
      object.locate rule.path = .ok (place, value) ∧ rule.template.render object = .ok key ∧
      after.Holds key value.render ∧ failed.orphan = some key

lemma Ends.settlesKey (ends : Ends document object tree rule store plan after grown fault) :
    SettlesKey object rule store plan after grown fault where
  done := by
    rintro rfl
    cases ends with
    | planned located rendered puts met added =>
      exact ⟨_, _, _, _, located, rendered, puts.holds, Rewrite.ne_nil_of_patchesAt met,
        Rewrite.Plan.entries_of_add added⟩
  early := by
    rintro failed rfl early
    obtain ⟨stored, planned⟩ := ends.unchanged_of_early early
    refine ⟨stored, planned, ?_⟩
    cases ends with
    | unread => rfl
    | unrendered => rfl
    | unstored => rfl
    | unmatched => cases early
    | overlapping => cases early
  late := by
    rintro failed rfl late
    cases ends with
    | unread => cases late
    | unrendered => cases late
    | unstored => cases late
    | unmatched located rendered puts =>
      exact ⟨.inl rfl, rfl, _, _, _, located, rendered, puts.holds, rfl⟩
    | overlapping located rendered puts =>
      exact ⟨.inr rfl, rfl, _, _, _, located, rendered, puts.holds, rfl⟩

/-- A key that an application has stored is the one that its rule renders, and it has a patch or is an
orphan. -/
lemma Ends.of_stored {key owner : String}
    (ends : Ends document object tree rule store plan after grown fault)
    (unowned : store.owners.lookup key = none) (owned : after.owners.lookup key = some owner) :
    (∃ patch, (patch, key) ∈ grown.entries) ∨
      ∃ failed, fault = some failed ∧ failed.orphan = some key := by
  -- only a deposit under the key itself makes it owned
  have same : ∀ {key' literal}, store.Puts key' literal document.name after → key' = key := by
    intro key' literal puts
    have owns := puts.isSome_lookup key
    rw [owned, unowned, Option.isSome_some, Option.isSome_none, Bool.or_false] at owns
    exact (eq_of_beq owns.symm).symm
  cases ends with
  | unread => rw [unowned] at owned; cases owned
  | unrendered => rw [unowned] at owned; cases owned
  | unstored => rw [unowned] at owned; cases owned
  | unmatched _ _ puts => exact .inr ⟨_, rfl, congrArg some (same puts)⟩
  | overlapping _ _ puts => exact .inr ⟨_, rfl, congrArg some (same puts)⟩
  | planned _ _ puts met added =>
    obtain rfl := same puts
    obtain ⟨patch, mem⟩ := List.exists_mem_of_ne_nil _ (Rewrite.ne_nil_of_patchesAt met)
    refine .inl ⟨patch, ?_⟩
    rw [Rewrite.Plan.entries_of_add added]
    exact List.mem_append_right _ (List.mem_map_of_mem mem)

end Application

/-! ## Records -/

namespace Extractor

/-- An orphan is on record with the failures of the rules that were applied. -/
lemma Treats.exists_applied {extractor : Extractor} {document : Manifest} {store after : Store}
    {fate : Fate} {diagnostic : Diagnostic} {key : String}
    (h : Treats extractor document store after fate)
    (recorded : diagnostic ∈ fate.diagnostics ++ fate.warnings)
    (orphan : diagnostic.orphan = some key) :
    ∃ decoded tree plan faults, Decodes document decoded ∧ decoded.tree? = some tree ∧
      Applied document decoded.object tree (extractor.selecting decoded) store .empty after plan
        faults ∧ diagnostic ∈ faults := by
  cases h with
  | skipped => cases recorded
  | undecodable => obtain rfl := List.mem_singleton.mp recorded; cases orphan
  | unmatched => cases recorded
  | unindexed => obtain rfl := List.mem_singleton.mp recorded; cases orphan
  | rewritten decodes _ indexed applied =>
    refine ⟨_, _, _, _, decodes, indexed, applied, ?_⟩
    rcases List.mem_append.mp recorded with mem | mem
    · exact (List.mem_filter.mp mem).1
    · exact (List.mem_filter.mp mem).1

end Extractor

/-! ## Turns -/

namespace Turn

variable {turn other : Turn} {extractor : Extractor} {documents : List Manifest}
  {values : ValuesTree} {after : Store} {fates : List Fate} {key : String}

open Extractor

/-- The fault of a turn is in the report. -/
lemma Of.reported (h : turn.Of extractor documents) {fault : RuleFault}
    (failed : (turn.application extractor values).fault = some fault) :
    let report := (extractor.run documents values).report
    record turn.document turn.rule fault ∈ report.diagnostics ++ report.warnings := by
  intro report
  obtain ⟨after, fates, runs⟩ := exists_runs extractor documents values
  have there := List.mem_of_getElem? (h.fate runs)
  obtain ⟨rules, later, -, faults⟩ := h.within values
  have mem : record turn.document turn.rule fault ∈ (turn.whole extractor values).faults := by
    simp [faults, Turn.faults, failed]
  have all : report = _ := (run_of_runs runs).2.2.2
  rw [all]
  cases worth : extractor.isWarning (record turn.document turn.rule fault) with
  | true =>
    refine List.mem_append_right _ (List.mem_flatMap.mpr ⟨_, there, ?_⟩)
    exact List.mem_filter.mpr ⟨mem, worth⟩
  | false =>
    refine List.mem_append_left _ (List.mem_append_right _ (List.mem_flatMap.mpr ⟨_, there, ?_⟩))
    exact List.mem_filter.mpr ⟨mem, by rw [worth]; rfl⟩

/-- A document has a patch for a key exactly if a turn about it that renders the key has no fault. -/
lemma Of.exists_patch_iff (h : turn.Of extractor documents) :
    (∃ patch, (patch, key) ∈ (turn.whole extractor values).plan.entries) ↔
      ∃ other : Turn, other.Of extractor documents ∧
        other.documentsBefore = turn.documentsBefore ∧
        (other.application extractor values).fault = none ∧
        other.rule.template.render turn.decoded.object = .ok key := by
  constructor
  · rintro ⟨patch, mem⟩
    have applied : Applied turn.document turn.decoded.object turn.tree
        (extractor.selecting turn.decoded)
        (extractor.treatAll (documents.take turn.documentsBefore.length) (.ofValues values)).1
        .empty (turn.whole extractor values).store (turn.whole extractor values).plan
        (turn.whole extractor values).faults := by
      rw [h.take_documents]
      exact (applied_iff extractor.options).mpr ⟨rfl, rfl, rfl⟩
    obtain ⟨other, of, here, -, fine, place, value, patches, -, rendered, -⟩ :=
      exists_of_planned h.getElem?_document h.decodes h.indexed applied mem
    rw [h.take_documents] at here
    refine ⟨other, of, here, fine, ?_⟩
    rw [← (h.same of here).2.1]
    exact rendered
  · rintro ⟨other, of, here, fine, rendered⟩
    obtain ⟨document, decoded, tree⟩ := h.same of here
    obtain ⟨_, _, _, patches, -, rendered', -, filled, planned⟩ :=
      (other.ends extractor values).settlesKey.done fine
    rw [decoded, rendered] at rendered'
    cases rendered'
    obtain ⟨patch, mem⟩ := List.exists_mem_of_ne_nil _ filled
    refine ⟨patch, ?_⟩
    have grown : (patch, key) ∈ (other.application extractor values).plan.entries := by
      rw [planned]
      exact List.mem_append_right _ (List.mem_map_of_mem mem)
    have kept := of.mem_whole grown
    rw [whole, document, decoded, tree, here] at kept
    exact kept

/-- An orphan on record is that of a turn, if no rule that is not ready has one. -/
lemma exists_of_orphan {diagnostic : Diagnostic}
    (rejected : ∀ diagnostic ∈ extractor.rejected, diagnostic.orphan = none)
    (reported : diagnostic ∈ (extractor.run documents values).report.diagnostics ++
      (extractor.run documents values).report.warnings)
    (orphan : diagnostic.orphan = some key) :
    ∃ (turn : Turn) (fault : RuleFault), turn.Of extractor documents ∧
      (turn.application extractor values).fault = some fault ∧
      diagnostic = record turn.document turn.rule fault := by
  obtain ⟨after, fates, runs⟩ := exists_runs extractor documents values
  rcases runs.exists_of_reported reported with mem | ⟨i, document, _, _, here, treats, recorded⟩
  · rw [rejected diagnostic mem] at orphan
    cases orphan
  · obtain ⟨decoded, tree, _, _, decodes, indexed, applied, mem⟩ :=
      treats.exists_applied recorded orphan
    obtain ⟨turn, of, -, rfl, fresh, mem⟩ := exists_of_applied
      (P := fun _ _ faults => diagnostic ∈ faults) here decodes indexed applied List.not_mem_nil mem
    obtain ⟨fault, failed, rfl⟩ : ∃ fault, (turn.application extractor values).fault = some fault ∧
        record turn.document turn.rule fault = diagnostic := by
      simpa using (List.mem_append.mp mem).resolve_left fresh
    exact ⟨turn, fault, of, failed, rfl⟩

end Turn

/-! ## Runs -/

namespace Extractor

variable {rules : List Rule} {options : RunOptions} {documents : List Manifest} {values : ValuesTree}
  {diagnostic : Diagnostic} {key : String}

/-- In every turn of a run the key settles, and at the end every key that the run has stored is among
the orphans or has a patch in a document that goes out with its patches applied. -/
theorem run_settles_keys (extractor : Extractor) (documents : List Manifest) (values : ValuesTree) :
    let run := extractor.run documents values
    let store := (extractor.treatAll documents (.ofValues values)).1
    (∀ turn : Turn, turn.Of extractor documents →
      Application.SettlesKey turn.decoded.object turn.rule
        (turn.before extractor values).store (turn.before extractor values).plan
        (turn.application extractor values).store (turn.application extractor values).plan
        (turn.application extractor values).fault) ∧
    ∀ key owner, store.owners.lookup key = some owner →
      key ∈ run.report.orphans ∨ ∃ (turn : Turn) (patch : Rewrite.Patch),
        turn.Of extractor documents ∧ (patch, key) ∈ (turn.whole extractor values).plan.entries ∧
        run.documents[turn.documentsBefore.length]? =
          some ⟨turn.document.name, (turn.whole extractor values).plan.apply turn.document.raw⟩ := by
  intro run store
  refine ⟨fun turn _ => (turn.ends extractor values).settlesKey, fun key owner owned => ?_⟩
  obtain ⟨after, fates, runs⟩ := exists_runs extractor documents values
  obtain ⟨rfl, -⟩ := runs_iff.mp runs
  obtain ⟨turn, of, unowned, owned⟩ := Turn.exists_of_stored
    (P := fun store => ∃ owner, store.owners.lookup key = some owner) runs (by rintro ⟨_, ⟨⟩⟩)
    ⟨owner, owned⟩
  obtain ⟨owner', owned⟩ := owned
  have free : (turn.before extractor values).store.owners.lookup key = none :=
    Option.eq_none_iff_forall_ne_some.mpr fun owner owns => unowned ⟨owner, owns⟩
  rcases (turn.ends extractor values).of_stored free owned with ⟨patch, mem⟩ | ⟨fault, failed, orphan⟩
  · exact .inr ⟨turn, patch, of, of.mem_whole mem, of.output values⟩
  · exact .inl (List.mem_filterMap.mpr ⟨_, of.reported failed, orphan⟩)

/-- Rules that are not ready have no orphans. -/
lemma orphan_of_rejected :
    ∀ diagnostic ∈ (ofRules rules options).rejected, diagnostic.orphan = none := by
  intro diagnostic mem
  obtain ⟨rule, -, rejects⟩ := List.mem_filterMap.mp mem
  cases ready : rule.ready with
  | ok _ => rw [ready] at rejects; cases rejects
  | error failure => rw [ready] at rejects; cases rejects; rfl

/-- An orphan on record is that of a turn that failed, and its document goes out with a patch for the
key exactly if another turn about the document has planned one. -/
theorem orphan_referenced_iff
    (reported : diagnostic ∈ ((ofRules rules options).run documents values).report.diagnostics ++
      ((ofRules rules options).run documents values).report.warnings)
    (orphan : diagnostic.orphan = some key) :
    let extractor := ofRules rules options
    ∃ (turn : Turn) (fault : RuleFault), turn.Of extractor documents ∧
      (turn.application extractor values).fault = some fault ∧
      diagnostic = record turn.document turn.rule fault ∧
      turn.rule.template.render turn.decoded.object = .ok key ∧
      (extractor.run documents values).documents[turn.documentsBefore.length]? =
        some ⟨turn.document.name, (turn.whole extractor values).plan.apply turn.document.raw⟩ ∧
      ((∃ patch, (patch, key) ∈ (turn.whole extractor values).plan.entries) ↔
        ∃ other : Turn, other.Of extractor documents ∧
          other.documentsBefore = turn.documentsBefore ∧
          other.rulesBefore.length ≠ turn.rulesBefore.length ∧
          (other.application extractor values).fault = none ∧
          other.rule.template.render turn.decoded.object = .ok key) := by
  intro extractor
  obtain ⟨turn, fault, of, failed, rfl⟩ :=
    Turn.exists_of_orphan orphan_of_rejected reported orphan
  have settles := (turn.ends extractor values).settlesKey
  have late : Application.isEarly fault.stage = false := by
    refine Bool.eq_false_iff.mpr fun early => ?_
    obtain ⟨-, -, none⟩ := settles.early fault failed early
    cases none.symm.trans orphan
  obtain ⟨-, -, _, _, key', -, rendered, -, orphan'⟩ := settles.late fault failed late
  obtain rfl : key = key' := Option.some.inj (orphan.symm.trans orphan')
  refine ⟨turn, fault, of, failed, rfl, rendered, of.output values, of.exists_patch_iff.trans ?_⟩
  constructor
  · rintro ⟨other, of', here, fine, rendered'⟩
    refine ⟨other, of', here, fun place => ?_, fine, rendered'⟩
    cases of.ext of' here place
    cases failed.symm.trans fine
  · rintro ⟨other, of', here, -, fine, rendered'⟩
    exact ⟨other, of', here, fine, rendered'⟩

/-- The key of the second one of two rules for one field. -/
theorem orphan_referenced_iff_repeated :
    let rules := [Rule.ofField "a" "k", Rule.ofField "a" "k"]
    let options : RunOptions := ⟨false, valuesName⟩
    let documents := [Manifest.small]
    let values := ValuesTree.empty
    ∃ diagnostic, (diagnostic ∈ ((ofRules rules options).run documents values).report.diagnostics ++
          ((ofRules rules options).run documents values).report.warnings ∧
        diagnostic.orphan = some "k") ∧
      let extractor := ofRules rules options
      ∃ (turn : Turn) (fault : RuleFault), turn.Of extractor documents ∧
        (turn.application extractor values).fault = some fault ∧
        diagnostic = record turn.document turn.rule fault ∧
        turn.rule.template.render turn.decoded.object = .ok "k" ∧
        (extractor.run documents values).documents[turn.documentsBefore.length]? =
          some ⟨turn.document.name, (turn.whole extractor values).plan.apply turn.document.raw⟩ ∧
        ((∃ patch, (patch, "k") ∈ (turn.whole extractor values).plan.entries) ↔
          ∃ other : Turn, other.Of extractor documents ∧
            other.documentsBefore = turn.documentsBefore ∧
            other.rulesBefore.length ≠ turn.rulesBefore.length ∧
            (other.application extractor values).fault = none ∧
            other.rule.template.render turn.decoded.object = .ok "k") := by
  intro rules options documents values
  have orphans : (((ofRules rules options).run documents values).report.diagnostics ++
      ((ofRules rules options).run documents values).report.warnings).map (·.orphan) =
        [some "k"] := by decide +kernel
  have listed : some "k" ∈ (((ofRules rules options).run documents values).report.diagnostics ++
      ((ofRules rules options).run documents values).report.warnings).map (·.orphan) := by
    rw [orphans]
    exact List.mem_singleton_self _
  obtain ⟨diagnostic, mem, orphan⟩ := List.mem_map.mp listed
  exact ⟨diagnostic, ⟨mem, orphan⟩, orphan_referenced_iff mem orphan⟩

/-- Of two rules for one field of a document the second fails, and its key is an orphan although the
document refers to it by the first. -/
theorem orphan_of_repeated_rule :
    let extractor := ofRules [Rule.ofField "a" "k", Rule.ofField "a" "k"] ⟨false, valuesName⟩
    let run := extractor.run [Manifest.small] .empty
    run.report.diagnostics.map (fun diagnostic => (diagnostic.document, diagnostic.orphan)) =
        [(some "a.yaml", some "k")] ∧
      run.report.documents = [("a.yaml", .rewritten 1 1)] ∧
      run.documents =
        [⟨"a.yaml", Text.bytes "apiVersion: v1\nkind: A\na: \x7b\x7b .Values.k \x7d\x7d\nb: y\n"⟩] := by
  refine ⟨by decide +kernel, by decide +kernel, by decide +kernel⟩

end Extractor

end ChartLift
