import ChartLift.Proofs.Extraction.Run
import ChartLift.Proofs.Rewrite.Match

/-!
# Running again

What a run has stored it finds again at its end, and what it could not store for want of a place
fits nowhere then (`Store.Secures`). So a document that no rule has rewritten stays as it is from the
values at the end of the run on (`Extractor.Dormant`), and so does a rewritten one that no longer
decodes. If no value was in conflict, running again over documents and values of a run changes nothing
(`Extractor.rerun`).
-/

namespace ChartLift

/-! ## Settled keys -/

namespace Store

variable {store middle after : Store} {key literal other text document : String}

/-- A literal that the run has stored, so that storing it again has no effect. -/
structure Stored (store : Store) (key literal : String) : Prop where
  held : store.Holds key literal
  again : store.values.insert key (.string literal) = .ok (store.values, some (.string literal))

/-- A key that takes no text. -/
def Unfit (store : Store) (key : String) : Prop :=
  ∀ text result, store.values.insert key (.string text) ≠ .ok result

lemma Puts.stored (h : store.Puts key literal document after) : after.Stored key literal := by
  obtain ⟨previous, inserted⟩ := h.inserted
  exact ⟨h.holds, ValuesTree.insert_again inserted (Value.isLeaf_string _)⟩

/-- Deposits keep what is stored. -/
lemma Stored.puts (stored : store.Stored other text)
    (h : store.Puts key literal document after) : after.Stored other text := by
  obtain ⟨previous, inserted⟩ := h.inserted
  refine ⟨stored.held.puts h, ?_⟩
  by_cases same : key = other
  · subst same
    rw [← stored.held.eq_of_puts h]
    exact ValuesTree.insert_again inserted (Value.isLeaf_string _)
  · -- the stored literal is inserted first, where it changes nothing
    obtain ⟨between, first, second⟩ :=
      ValuesTree.insert_comm stored.again inserted (Value.isLeaf_string _) (Ne.symm same)
    rw [inserted] at first
    cases first
    rw [second, (stored.held.puts h).value]

/-- Deposits fit no key that did not fit before. -/
lemma Unfit.puts (unfit : store.Unfit other) (h : store.Puts key literal document after) :
    after.Unfit other := by
  intro text result inserted'
  obtain ⟨previous, inserted⟩ := h.inserted
  obtain ⟨result', before⟩ :=
    ValuesTree.exists_insert_before inserted (Value.isLeaf_string _) inserted'
  exact unfit text result' before

/-- A store in which all that another one has settled is settled. -/
structure Secures (store after : Store) : Prop where
  stored : ∀ key literal, store.Stored key literal → after.Stored key literal
  unfit : ∀ key, store.Unfit key → after.Unfit key

lemma Secures.refl (store : Store) : store.Secures store :=
  ⟨fun _ _ h => h, fun _ h => h⟩

lemma Secures.trans (h : store.Secures middle) (h' : middle.Secures after) : store.Secures after :=
  ⟨fun key literal stored => h'.stored key literal (h.stored key literal stored),
    fun key unfit => h'.unfit key (h.unfit key unfit)⟩

/-- Deposits settle what was settled. -/
lemma Secures.puts (h : store.Secures middle) (h' : middle.Puts key literal document after) :
    store.Secures after :=
  ⟨fun key literal stored => (h.stored key literal stored).puts h',
    fun key unfit => (h.unfit key unfit).puts h'⟩

end Store

/-- A failure that another value under the key is the reason for. -/
def Failure.IsConflict (failure : Failure) : Prop :=
  ∃ key existing new owner, failure = .valueConflict key existing new owner

/-! ## Dormant rules -/

namespace Application

variable {document : Manifest} {object : Value} {tree : Yaml.Layout.Tree} {rule : ReadyRule}
  {store after final : Store} {plan grown : Rewrite.Plan} {fault : Option RuleFault}
  {values : ValuesTree}

/-- That a rule leaves values and an empty plan alone: its key takes no text, or its literal is there
already and it has no patches that can be planned. -/
def Dormant (document : Manifest) (object : Value) (tree : Yaml.Layout.Tree) (rule : ReadyRule)
    (values : ValuesTree) : Prop :=
  ∀ place value key, object.locate rule.path = .ok (place, value) →
    rule.template.render object = .ok key →
    (∀ result, values.insert key (.string value.render) ≠ .ok result) ∨
    (values.insert key (.string value.render) = .ok (values, some (.string value.render)) ∧
      ∀ patches, Rewrite.patchesAt tree document.raw place = .ok patches →
        ∃ overlap, Rewrite.Plan.empty.add patches key = .error overlap)

/-- A dormant rule leaves the values and an empty plan alone. -/
lemma Dormant.ends (dormant : Dormant document object tree rule store.values)
    (ends : Ends document object tree rule store .empty after grown fault) :
    after.values = store.values ∧ grown = .empty := by
  -- what is stored is what is there
  have same : ∀ {place value key after}, object.locate rule.path = .ok (place, value) →
      rule.template.render object = .ok key →
      store.Puts key value.render document.name after →
      after.values = store.values ∧ ∀ patches,
        Rewrite.patchesAt tree document.raw place = .ok patches →
        ∃ overlap, Rewrite.Plan.empty.add patches key = .error overlap := by
    intro place value key after located rendered stored
    obtain ⟨previous, inserted⟩ := stored.inserted
    rcases dormant place value key located rendered with refused | ⟨there, unplanned⟩
    · exact absurd inserted (refused _)
    · rw [there] at inserted
      obtain ⟨e, -⟩ := Prod.mk.inj (Except.ok.inj inserted)
      exact ⟨e.symm, unplanned⟩
  cases ends with
  | unread => exact ⟨rfl, rfl⟩
  | unrendered => exact ⟨rfl, rfl⟩
  | unstored => exact ⟨rfl, rfl⟩
  | unmatched located rendered stored => exact ⟨(same located rendered stored).1, rfl⟩
  | overlapping located rendered stored => exact ⟨(same located rendered stored).1, rfl⟩
  | planned located rendered stored met added =>
    obtain ⟨overlap, refused⟩ := (same located rendered stored).2 _ met
    rw [refused] at added
    cases added

/-- A key that could not be stored, other than for a conflict of values, takes no text. -/
lemma unfit_of_put_eq_error {key literal name : String} {failure : Failure}
    (refused : store.put key literal name = .error failure) (calm : ¬ failure.IsConflict) :
    store.Unfit key := by
  rcases Store.put_eq_error refused with ⟨existing, owner, rfl⟩ | ⟨fault, rfl⟩
  · exact absurd ⟨_, _, _, _, rfl⟩ calm
  · intro text result inserted
    obtain ⟨result', inserted'⟩ := ValuesTree.exists_insert inserted (.string literal)
    rw [Store.put] at refused
    split at refused
    · cases refused
    · rw [inserted'] at refused
      cases refused

/-- A rule that plans nothing, for another reason than a conflict of values, is dormant from then on.
-/
lemma Ends.dormant (ends : Ends document object tree rule store .empty after .empty fault)
    (calm : ∀ failed, fault = some failed → ¬ failed.failure.IsConflict)
    (secures : after.Secures final) : Dormant document object tree rule final.values := by
  intro place value key located rendered
  generalize planned : Rewrite.Plan.empty = grown at ends
  cases ends with
  | unread located' => rw [located] at located'; cases located'
  | unrendered _ rendered' => rw [rendered] at rendered'; cases rendered'
  | unstored located' rendered' refused =>
    cases located.symm.trans located'
    cases rendered.symm.trans rendered'
    have unfit := secures.unfit key (unfit_of_put_eq_error refused (calm _ rfl))
    exact .inl (unfit _)
  | unmatched located' rendered' stored met =>
    cases located.symm.trans located'
    cases rendered.symm.trans rendered'
    refine .inr ⟨(secures.stored key _ stored.stored).again, fun patches met' => ?_⟩
    rw [met] at met'
    cases met'
  | overlapping located' rendered' stored met added =>
    cases located.symm.trans located'
    cases rendered.symm.trans rendered'
    refine .inr ⟨(secures.stored key _ stored.stored).again, fun patches met' => ?_⟩
    cases met.symm.trans met'
    exact ⟨_, added⟩
  | planned _ _ _ met added =>
    have entries := Rewrite.Plan.entries_of_add added
    rw [← planned] at entries
    have none : _ = [] := List.map_eq_nil_iff.mp (List.nil_append _ ▸ entries.symm)
    exact absurd none (Rewrite.ne_nil_of_patchesAt met)

lemma Ends.ne_empty_of_fine (ends : Ends document object tree rule store plan after grown none) :
    grown ≠ .empty := by
  rintro rfl
  generalize planned : Rewrite.Plan.empty = grown at ends
  cases ends with
  | planned _ _ _ met added =>
    have entries := Rewrite.Plan.entries_of_add added
    rw [← planned] at entries
    have none := (List.append_eq_nil_iff.mp entries.symm).2
    exact absurd (List.map_eq_nil_iff.mp none) (Rewrite.ne_nil_of_patchesAt met)

end Application

/-! ## Dormant documents -/

namespace Extractor

section Applied

variable {document : Manifest} {object : Value} {tree : Yaml.Layout.Tree} {rules : List ReadyRule}
  {store after final : Store} {plan grown : Rewrite.Plan} {faults : List Diagnostic}

lemma Applied.secures (h : Applied document object tree rules store plan after grown faults) :
    store.Secures after :=
  h.keeps (P := store.Secures) Store.Secures.puts (.refl store)

/-- Dormant rules leave the values and an empty plan alone, one after the other. -/
lemma Applied.of_dormant (h : Applied document object tree rules store plan after grown faults)
    (dormant : ∀ rule ∈ rules, Application.Dormant document object tree rule store.values)
    (empty : plan = .empty) : after.values = store.values ∧ grown = .empty := by
  induction h with
  | nil => exact ⟨rfl, empty⟩
  | done ends _ ih =>
    subst empty
    obtain ⟨here, others⟩ := List.forall_mem_cons.mp dormant
    obtain ⟨same, still⟩ := here.ends ends
    rw [← same] at others ⊢
    exact ih others still
  | failed ends _ ih =>
    subst empty
    obtain ⟨here, others⟩ := List.forall_mem_cons.mp dormant
    obtain ⟨same, still⟩ := here.ends ends
    rw [← same] at others ⊢
    exact ih others still

/-- Rules that have planned nothing, for other reasons than conflicts, are dormant from then on. -/
lemma Applied.dormant (h : Applied document object tree rules store plan after grown faults)
    (idle : grown = .empty) (calm : ∀ diagnostic ∈ faults, ¬ diagnostic.failure.IsConflict)
    (secures : after.Secures final) :
    plan = .empty ∧
      ∀ rule ∈ rules, Application.Dormant document object tree rule final.values := by
  induction h with
  | nil => exact ⟨idle, List.forall_mem_nil _⟩
  | done ends rest ih => exact absurd (ih idle calm secures).1 ends.ne_empty_of_fine
  | failed ends rest ih =>
    obtain ⟨here, others⟩ := List.forall_mem_cons.mp calm
    obtain ⟨rfl, dormant⟩ := ih idle others secures
    obtain rfl := ends.plan_eq_of_failed
    refine ⟨rfl, List.forall_mem_cons.mpr ⟨ends.dormant ?_ (rest.secures.trans secures), dormant⟩⟩
    rintro failed ⟨⟩
    exact here

end Applied

/-- That a document leaves values alone and is left alone, whoever owns the values. -/
def Dormant (extractor : Extractor) (document : Manifest) (values : ValuesTree) : Prop :=
  ∀ store after fate, store.values = values → Treats extractor document store after fate →
    after.values = values ∧ fate.document = document

section Treats

variable {extractor : Extractor} {document : Manifest} {values : ValuesTree}
  {store after final : Store} {fate : Fate}

lemma dormant_of_skipped {reason : SkipReason} (skip : skipReason? document = some reason) :
    Dormant extractor document values := by
  rintro store after fate rfl treats
  obtain ⟨rfl, rfl⟩ := treats.unique (.skipped skip)
  exact ⟨rfl, rfl⟩

lemma dormant_of_undecodable {fault : DecodeFault} (decode : document.decode = .error fault) :
    Dormant extractor document values := by
  cases skip : skipReason? document with
  | some reason => exact dormant_of_skipped skip
  | none =>
    rintro store after fate rfl treats
    obtain ⟨rfl, rfl⟩ := treats.unique (.undecodable skip decode)
    exact ⟨rfl, rfl⟩

/-- What a run makes of a document is dormant from the end of the run on, if it is the document
itself and no value was in conflict, or if it does not decode. -/
lemma Treats.dormant (h : Treats extractor document store after fate)
    (calm : ∀ diagnostic ∈ fate.diagnostics, ¬ diagnostic.failure.IsConflict)
    (spoiled : 0 < fate.state.patches → ∃ fault, fate.document.decode = .error fault)
    (secures : after.Secures final) : Dormant extractor fate.document final.values := by
  cases h with
  | skipped skip => exact dormant_of_skipped skip
  | undecodable _ decode => exact dormant_of_undecodable decode
  | unmatched decodes none =>
    rintro store after fate same treats
    obtain ⟨rfl, rfl⟩ := treats.unique (.unmatched decodes none)
    exact ⟨same, rfl⟩
  | unindexed decodes busy tree =>
    rintro store after fate same treats
    obtain ⟨rfl, rfl⟩ := treats.unique (.unindexed decodes busy tree)
    exact ⟨same, rfl⟩
  | @rewritten _ plan decoded tree faults decodes busy indexed applied =>
    by_cases idle : plan = .empty
    · subst idle
      have untouched : rewrite document .empty = document := rfl
      have quiet : ∀ diagnostic ∈ faults, ¬ diagnostic.failure.IsConflict := by
        intro diagnostic mem conflict
        refine calm diagnostic (List.mem_filter.mpr ⟨mem, ?_⟩) conflict
        -- only a path without an entry is ever tolerated
        obtain ⟨key, existing, new, owner, failure⟩ := conflict
        rw [isWarning, failure]
        rfl
      obtain ⟨-, dormant⟩ := applied.dormant rfl quiet secures
      rintro store' after' fate' same treats
      have applied' : Applied document decoded.object tree (extractor.selecting decoded) store'
          .empty _ _ _ := (applied_iff extractor.options).mpr ⟨rfl, rfl, rfl⟩
      obtain ⟨rfl, rfl⟩ := treats.unique (.rewritten decodes busy indexed applied')
      obtain ⟨kept, still⟩ := applied'.of_dormant (same ▸ dormant) rfl
      rw [still]
      exact ⟨kept.trans same, rfl⟩
    · have patched : 0 < plan.size := by
        exact Nat.pos_of_ne_zero fun none =>
          idle (congrArg Rewrite.Plan.mk (List.eq_nil_of_length_eq_zero none))
      obtain ⟨fault, decode⟩ := spoiled patched
      exact dormant_of_undecodable decode

end Treats

section Runs

variable {extractor : Extractor} {documents documents' : List Manifest} {values : ValuesTree}
  {store after : Store} {fates : List Fate}

lemma Runs.secures (h : Runs extractor documents store after fates) : store.Secures after :=
  h.keeps (P := store.Secures) Store.Secures.puts (.refl store)

/-- A run over dormant documents leaves the values and all documents alone. -/
lemma Runs.of_dormant (h : Runs extractor documents store after fates)
    (dormant : ∀ document ∈ documents, Dormant extractor document store.values) :
    after.values = store.values ∧ fates.map (·.document) = documents := by
  induction h with
  | nil => exact ⟨rfl, rfl⟩
  | cons treats _ ih =>
    obtain ⟨here, others⟩ := List.forall_mem_cons.mp dormant
    obtain ⟨same, still⟩ := here _ _ _ rfl treats
    rw [← same] at others ⊢
    obtain ⟨kept, stills⟩ := ih others
    exact ⟨kept, by rw [List.map_cons, still, stills]⟩

/-- The documents of a run are dormant from its end on, if no value was in conflict and those that
have been rewritten no longer decode. -/
lemma Runs.dormant (h : Runs extractor documents store after fates)
    (calm : ∀ fate ∈ fates, ∀ diagnostic ∈ fate.diagnostics, ¬ diagnostic.failure.IsConflict)
    (spoiled : ∀ fate ∈ fates, 0 < fate.state.patches →
      ∃ fault, fate.document.decode = .error fault) :
    ∀ fate ∈ fates, Dormant extractor fate.document after.values := by
  induction h with
  | nil => exact List.forall_mem_nil _
  | cons treats rest ih =>
    obtain ⟨calmHere, calm⟩ := List.forall_mem_cons.mp calm
    obtain ⟨spoiledHere, spoiled⟩ := List.forall_mem_cons.mp spoiled
    exact List.forall_mem_cons.mpr
      ⟨treats.dormant calmHere spoiledHere rest.secures, ih calm spoiled⟩

/-- That the documents that a run has rewritten no longer decode. -/
def Spoils (outcome : Outcome) : Prop :=
  ∀ (i : Nat) (name : String) (document : Manifest) (state : DocumentState),
    outcome.documents[i]? = some document →
    outcome.report.documents[i]? = some (name, state) → 0 < state.patches →
    ∃ fault, document.decode = .error fault

/-- Running again over documents that a run has left, or that are skipped by their names, and over
the values of the run changes neither: if no value was in conflict and the documents that have been
rewritten no longer decode. -/
theorem rerun (settled : ∀ diagnostic ∈ (extractor.run documents values).report.diagnostics,
      ¬ diagnostic.failure.IsConflict)
    (spoils : Spoils (extractor.run documents values))
    (again : ∀ document ∈ documents', document ∈ (extractor.run documents values).documents ∨
      ∃ reason, skipReason? document = some reason) :
    let first := extractor.run documents values
    (extractor.run documents' first.values).documents = documents' ∧
      (extractor.run documents' first.values).values = first.values := by
  intro first
  obtain ⟨after, fates, runs⟩ := exists_runs extractor documents values
  obtain ⟨outputs, kept, -, report⟩ := run_of_runs runs
  rw [report] at settled
  have calm : ∀ fate ∈ fates, ∀ diagnostic ∈ fate.diagnostics,
      ¬ diagnostic.failure.IsConflict := by
    intro fate mem diagnostic here
    exact settled diagnostic
      (List.mem_append_right _ (List.mem_flatMap.mpr ⟨fate, mem, here⟩))
  have spoiled : ∀ fate ∈ fates, 0 < fate.state.patches →
      ∃ fault, fate.document.decode = .error fault := by
    intro fate mem patched
    obtain ⟨i, there⟩ := List.mem_iff_getElem?.mp mem
    refine spoils i fate.document.name fate.document fate.state ?_ ?_ patched
    · rw [outputs, List.getElem?_map, there]
      rfl
    · rw [report, List.getElem?_map, there]
      rfl
  obtain ⟨after', fates', runs'⟩ := exists_runs extractor documents' first.values
  obtain ⟨outputs', kept', -, -⟩ := run_of_runs runs'
  have dormant : ∀ document ∈ documents', Dormant extractor document first.values := by
    intro document mem
    rcases again document mem with old | ⟨reason, skip⟩
    · rw [outputs] at old
      obtain ⟨fate, member, rfl⟩ := List.mem_map.mp old
      rw [show first.values = after.values from kept]
      exact runs.dormant calm spoiled fate member
    · exact dormant_of_skipped skip
  obtain ⟨same, still⟩ := runs'.of_dormant dormant
  exact ⟨outputs'.trans still, kept'.trans same⟩

end Runs

end Extractor

end ChartLift
