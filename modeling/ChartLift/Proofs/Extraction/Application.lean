import ChartLift.Extraction.Application
import ChartLift.Proofs.Extraction.Store
import ChartLift.Proofs.Rewrite.Plan

/-!
# How an application ends

`Ends` lists the six ends of the application of a rule, each with the store and the plan it leaves
and its fault. All that is said of runs comes from it: an application keeps what a deposit keeps
(`Ends.keeps`), it leaves store and plan alone if it fails before the deposit
(`Ends.unchanged_of_early`), and only one without a fault plans patches (`Ends.planned_of_mem`).
-/

namespace ChartLift.Application

/-- What an application to a document comes to: the store and the plan behind it, and its fault. -/
inductive Ends (document : Manifest) (object : Value) (tree : Yaml.Layout.Tree) (rule : ReadyRule)
    (store : Store) (plan : Rewrite.Plan) : Store → Rewrite.Plan → Option RuleFault → Prop where
  | unread {fault} :
    object.locate rule.path = .error fault →
    Ends document object tree rule store plan store plan
      (some ⟨.read, .unlocated rule.path fault, none⟩)
  | unrendered {place value fault} :
    object.locate rule.path = .ok (place, value) →
    rule.template.render object = .error fault →
    Ends document object tree rule store plan store plan (some ⟨.render, .template fault, none⟩)
  | unstored {place value key failure} :
    object.locate rule.path = .ok (place, value) →
    rule.template.render object = .ok key →
    store.put key value.render document.name = .error failure →
    Ends document object tree rule store plan store plan (some ⟨.store, failure, none⟩)
  | unmatched {place value key after fault} :
    object.locate rule.path = .ok (place, value) →
    rule.template.render object = .ok key →
    store.Puts key value.render document.name after →
    Rewrite.patchesAt tree document.raw place = .error fault →
    Ends document object tree rule store plan after plan
      (some ⟨.find, .unmatched fault, some key⟩)
  | overlapping {place value key after patches overlap} :
    object.locate rule.path = .ok (place, value) →
    rule.template.render object = .ok key →
    store.Puts key value.render document.name after →
    Rewrite.patchesAt tree document.raw place = .ok patches →
    plan.add patches key = .error overlap →
    Ends document object tree rule store plan after plan (some ⟨.plan, .overlap overlap, some key⟩)
  | planned {place value key after patches grown} :
    object.locate rule.path = .ok (place, value) →
    rule.template.render object = .ok key →
    store.Puts key value.render document.name after →
    Rewrite.patchesAt tree document.raw place = .ok patches →
    plan.add patches key = .ok grown →
    Ends document object tree rule store plan after grown none

variable {document : Manifest} {object : Value} {tree : Yaml.Layout.Tree} {rule : ReadyRule}
  {store after : Store} {plan grown : Rewrite.Plan} {fault : Option RuleFault}

/-- An application ends as `Ends` says, and in no other way. -/
lemma ends_iff : Ends document object tree rule store plan after grown fault ↔
    (run document object tree rule store plan).store = after ∧
      (run document object tree rule store plan).plan = grown ∧
      (run document object tree rule store plan).fault = fault := by
  constructor
  · intro ends
    cases ends with
    | unread located => simp [run, located]
    | unrendered located rendered => simp [run, located, rendered]
    | unstored located rendered refused => simp [run, located, rendered, refused]
    | unmatched located rendered stored met =>
      obtain ⟨gone, stored⟩ := stored.put
      simp [run, located, rendered, stored, met]
    | overlapping located rendered stored met added =>
      obtain ⟨gone, stored⟩ := stored.put
      simp [run, located, rendered, stored, met, added]
    | planned located rendered stored met added =>
      obtain ⟨gone, stored⟩ := stored.put
      simp [run, located, rendered, stored, met, added]
  · rintro ⟨rfl, rfl, rfl⟩
    cases located : object.locate rule.path with
    | error fault => simpa [run, located] using Ends.unread located
    | ok found =>
      obtain ⟨place, value⟩ := found
      cases rendered : rule.template.render object with
      | error fault => simpa [run, located, rendered] using Ends.unrendered located rendered
      | ok key =>
        cases stored : store.put key value.render document.name with
        | error failure =>
          simpa [run, located, rendered, stored] using Ends.unstored located rendered stored
        | ok result =>
          obtain ⟨after, gone⟩ := result
          have puts := Store.Puts.of_put stored
          cases met : Rewrite.patchesAt tree document.raw place with
          | error fault =>
            simpa [run, located, rendered, stored, met] using
              Ends.unmatched located rendered puts met
          | ok patches =>
            cases added : plan.add patches key with
            | error overlap =>
              simpa [run, located, rendered, stored, met, added] using
                Ends.overlapping located rendered puts met added
            | ok grown =>
              simpa [run, located, rendered, stored, met, added] using
                Ends.planned located rendered puts met added

lemma ends_run : Ends document object tree rule store plan
    (run document object tree rule store plan).store
    (run document object tree rule store plan).plan
    (run document object tree rule store plan).fault :=
  ends_iff.mpr ⟨rfl, rfl, rfl⟩

/-- What deposits keep, an application keeps. -/
lemma Ends.keeps {P : Store → Prop}
    (keeps : ∀ {store after key literal document}, P store →
      store.Puts key literal document after → P after)
    (ends : Ends document object tree rule store plan after grown fault) (h : P store) :
    P after := by
  cases ends with
  | unread => exact h
  | unrendered => exact h
  | unstored => exact h
  | unmatched _ _ stored => exact keeps h stored
  | overlapping _ _ stored => exact keeps h stored
  | planned _ _ stored => exact keeps h stored

/-- A rule has a patch for a key: one for an entry at the place of its value. -/
def Plans (document : Manifest) (object : Value) (tree : Yaml.Layout.Tree) (rule : ReadyRule)
    (entry : Rewrite.Patch × String) : Prop :=
  ∃ place value patches, object.locate rule.path = .ok (place, value) ∧
    rule.template.render object = .ok entry.2 ∧
    Rewrite.patchesAt tree document.raw place = .ok patches ∧ entry.1 ∈ patches

/-- A planned patch was planned before, or the rule has it and its application has no fault. -/
lemma Ends.planned_of_mem {entry : Rewrite.Patch × String}
    (ends : Ends document object tree rule store plan after grown fault)
    (mem : entry ∈ grown.entries) :
    entry ∈ plan.entries ∨ fault = none ∧ Plans document object tree rule entry := by
  cases ends with
  | unread => exact .inl mem
  | unrendered => exact .inl mem
  | unstored => exact .inl mem
  | unmatched => exact .inl mem
  | overlapping => exact .inl mem
  | planned located rendered _ met added =>
    rw [Rewrite.Plan.entries_of_add added] at mem
    rcases List.mem_append.mp mem with mem | mem
    · exact .inl mem
    · obtain ⟨patch, here, rfl⟩ := List.mem_map.mp mem
      exact .inr ⟨rfl, _, _, _, located, rendered, met, here⟩

lemma Ends.disjoint (ends : Ends document object tree rule store plan after grown fault)
    (disjoint : plan.Disjoint) : grown.Disjoint := by
  cases ends with
  | unread => exact disjoint
  | unrendered => exact disjoint
  | unstored => exact disjoint
  | unmatched => exact disjoint
  | overlapping => exact disjoint
  | planned _ _ _ _ added => exact ((Rewrite.Plan.add_eq_ok_iff disjoint).mp added).2

/-- An application only adds to a plan. -/
lemma Ends.prefix_entries (ends : Ends document object tree rule store plan after grown fault) :
    plan.entries <+: grown.entries := by
  cases ends with
  | unread => exact List.prefix_rfl
  | unrendered => exact List.prefix_rfl
  | unstored => exact List.prefix_rfl
  | unmatched => exact List.prefix_rfl
  | overlapping => exact List.prefix_rfl
  | planned _ _ _ _ added =>
    rw [Rewrite.Plan.entries_of_add added]
    exact List.prefix_append _ _

lemma Ends.plan_eq_of_failed {failed : RuleFault}
    (ends : Ends document object tree rule store plan after grown (some failed)) : grown = plan := by
  cases ends <;> rfl

/-- Stages that come before a value is stored. -/
def isEarly : Stage → Bool
  | .read | .render | .store => true
  | _ => false

/-- That an application fails before it has stored its value. -/
def FailsEarly (applied : Application) : Prop :=
  ∃ fault, applied.fault = some fault ∧ isEarly fault.stage = true

/-- An application that fails before it has stored its value leaves store and plan as they were. -/
lemma Ends.unchanged_of_early {failed : RuleFault}
    (ends : Ends document object tree rule store plan after grown (some failed))
    (early : isEarly failed.stage = true) : after = store ∧ grown = plan := by
  cases ends with
  | unread => exact ⟨rfl, rfl⟩
  | unrendered => exact ⟨rfl, rfl⟩
  | unstored => exact ⟨rfl, rfl⟩
  | unmatched => cases early
  | overlapping => cases early

end ChartLift.Application
