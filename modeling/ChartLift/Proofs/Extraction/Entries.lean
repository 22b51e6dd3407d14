import ChartLift.Proofs.Extraction.Turn
import ChartLift.Proofs.Rewrite.Match

/-!
# The entries at the place of a value

A layout tree may have several entries at one place, where a key is written twice. If they fare alike,
a rule that succeeds has a patch for each of them, and where one cannot be rewritten the rule says so
and plans nothing (`Application.run_patches_every_entry`). Entries of trees without repeated keys fare
alike (`alike_of_distinct`). Of an entry that can be rewritten and one that cannot, the first alone is
rewritten, and nothing is said of the other (`Application.run_of_repeated_key`).
-/

namespace ChartLift

open Text (Bytes)
open Yaml.Layout (Node Entry Tree)

namespace Rewrite

/-- That the entries at a path fare alike: each of them can be rewritten, or none can. -/
def Alike (tree : Tree) (source : Bytes) (path : Path) : Prop :=
  (∀ entry ∈ entriesAt tree path, ∃ patch, meetEntry source path entry = .ok patch) ∨
    ∀ entry ∈ entriesAt tree path, ∃ refusal, meetEntry source path entry = .error refusal

/-- A node in which no mapping has a key twice, at any depth. -/
inductive Distinct : Node → Prop where
  | scalar {span text} :
    Distinct (.scalar span text)
  | alias {span} :
    Distinct (.alias span)
  | sequence {span flow} {items : List Node} :
    (∀ item ∈ items, Distinct item) →
    Distinct (.sequence span flow items)
  | mapping {span flow} {entries : List Entry} :
    (∀ a ∈ entries, ∀ b ∈ entries, ∀ key, a.key = some key → b.key = some key → a = b) →
    (∀ entry ∈ entries, Distinct entry.value) →
    Distinct (.mapping span flow entries)

/-- Without repeated keys steps lead to one entry. -/
lemma Reached.unique {node mapping mapping' : Node} {segments : List Segment}
    {around around' : List Node} {entry entry' : Entry}
    (h : Reached node segments mapping around entry) (distinct : Distinct node)
    (h' : Reached node segments mapping' around' entry') : mapping = mapping' ∧ entry = entry' := by
  induction h generalizing around' with
  | entry mem named =>
    cases distinct with
    | mapping once inside =>
      cases h' with
      | entry mem' named' => exact ⟨rfl, once _ mem _ mem' _ named named'⟩
      | value _ _ reached => exact absurd reached not_reached_nil
  | value mem named reached ih =>
    cases distinct with
    | mapping once inside =>
      cases h' with
      | entry => exact absurd reached not_reached_nil
      | value mem' named' reached' =>
        cases once _ mem _ mem' _ named named'
        exact ih (inside _ mem) reached'
  | item there reached ih =>
    cases distinct with
    | sequence inside =>
      generalize step : Segment.index _ = first at h'
      cases h' with
      | item there' reached' =>
        cases step
        cases there.symm.trans there'
        exact ih (inside _ (List.mem_of_getElem? there)) reached'

/-- Without repeated keys the entries at a path fare alike: there is at most one. -/
lemma alike_of_distinct {tree : Tree} (source : Bytes) (path : Path)
    (distinct : ∀ root, tree.root = some root → Distinct root) : Alike tree source path := by
  have same : ∀ a ∈ entriesAt tree path, ∀ b ∈ entriesAt tree path, a = b := by
    rintro ⟨entry, flow⟩ mem ⟨entry', flow'⟩ mem'
    obtain ⟨mapping, around, ⟨root, rooted, reached⟩, rfl⟩ := mem_entriesAt_iff.mp mem
    obtain ⟨mapping', around', ⟨root', rooted', reached'⟩, rfl⟩ := mem_entriesAt_iff.mp mem'
    cases rooted.symm.trans rooted'
    obtain ⟨rfl, rfl⟩ := reached.unique (distinct root rooted) reached'
    rfl
  cases entries : entriesAt tree path with
  | nil => exact .inl (by simp [entries])
  | cons first rest =>
    rw [entries] at same
    have all : ∀ entry ∈ entriesAt tree path, entry = first := fun entry mem =>
      same entry (entries ▸ mem) first (List.mem_cons_self ..)
    cases met : meetEntry source path first with
    | ok patch => exact .inl fun entry mem => ⟨patch, all entry mem ▸ met⟩
    | error refusal => exact .inr fun entry mem => ⟨refusal, all entry mem ▸ met⟩

end Rewrite

namespace Application

open Rewrite (Alike entriesAt meetEntry)

variable {document : Manifest} {object : Value} {tree : Tree} {rule : ReadyRule}
  {store after : Store} {plan grown : Rewrite.Plan} {fault : Option RuleFault} {place : Path}
  {value : Value}

/-- A rule that succeeds where the entries fare alike has planned one patch for each of them. -/
lemma Ends.patches_each (ends : Ends document object tree rule store plan after grown none)
    (located : object.locate rule.path = .ok (place, value))
    (alike : Alike tree document.raw place) :
    ∃ key patches, rule.template.render object = .ok key ∧
      patches ≠ [] ∧ grown.entries = plan.entries ++ patches.map (·, key) ∧
      List.Forall₂ (fun entry patch => meetEntry document.raw place entry = .ok patch)
        (entriesAt tree place) patches := by
  cases ends with
  | planned located' rendered stored met added =>
    cases located.symm.trans located'
    have filled := Rewrite.ne_nil_of_patchesAt met
    refine ⟨_, _, rendered, filled, Rewrite.Plan.entries_of_add added, ?_⟩
    -- a patch tells of an entry that is not refused, and so none is
    obtain ⟨patch, mem⟩ := List.exists_mem_of_ne_nil _ filled
    obtain ⟨entry, colon, visited, known, -⟩ := (Rewrite.mem_iff_of_patchesAt met).mp mem
    have here := Rewrite.mem_entriesAt_iff_mem_walk.mpr visited
    rcases alike with taken | refused
    · obtain ⟨patches, met', each⟩ :=
        Rewrite.patchesAt_of_entries_taken (List.ne_nil_of_mem here) taken
      cases met.symm.trans met'
      exact each
    · obtain ⟨refusal, met'⟩ := refused _ here
      rw [meetEntry, known] at met'
      cases met'

/-- A rule whose place is unpatchable plans nothing and fails, for that reason once its value is
stored. -/
lemma Ends.of_unpatchable {refusal : Rewrite.Refusal}
    (ends : Ends document object tree rule store plan after grown fault)
    (located : object.locate rule.path = .ok (place, value))
    (unpatchable : Rewrite.patchesAt tree document.raw place =
      .error (.unpatchable place.canonical refusal)) :
    grown = plan ∧ fault.isSome ∧ ∀ key stored, rule.template.render object = .ok key →
      store.Puts key value.render document.name stored →
      fault = some ⟨.find, .unmatched (.unpatchable place.canonical refusal), some key⟩ := by
  cases ends with
  | unread located' =>
    rw [located] at located'
    cases located'
  | unrendered located' rendered =>
    refine ⟨rfl, rfl, fun key stored rendered' => ?_⟩
    rw [rendered] at rendered'
    cases rendered'
  | unstored located' rendered refused =>
    refine ⟨rfl, rfl, fun key stored rendered' puts => ?_⟩
    cases located.symm.trans located'
    cases rendered.symm.trans rendered'
    obtain ⟨gone, taken⟩ := puts.put
    rw [refused] at taken
    cases taken
  | unmatched located' rendered _ met =>
    cases located.symm.trans located'
    cases unpatchable.symm.trans met
    refine ⟨rfl, rfl, fun key stored rendered' _ => ?_⟩
    cases rendered.symm.trans rendered'
    rfl
  | overlapping located' _ _ met =>
    cases located.symm.trans located'
    cases unpatchable.symm.trans met
  | planned located' _ _ met =>
    cases located.symm.trans located'
    cases unpatchable.symm.trans met

/-- A rule whose entries fare alike and that succeeds has planned one patch for each entry at the
place of its value, in their order. If one of these entries cannot be rewritten, the rule plans
nothing, and once its value is stored it fails since the place is unpatchable. -/
theorem run_patches_every_entry (located : object.locate rule.path = .ok (place, value))
    (alike : Alike tree document.raw place) :
    let application := run document object tree rule store plan
    (application.fault = none → ∃ key patches, rule.template.render object = .ok key ∧
      patches ≠ [] ∧ application.plan.entries = plan.entries ++ patches.map (·, key) ∧
      List.Forall₂ (fun entry patch => meetEntry document.raw place entry = .ok patch)
        (entriesAt tree place) patches) ∧
    ((∃ entry ∈ entriesAt tree place, ∃ refusal,
        meetEntry document.raw place entry = .error refusal) →
      application.plan = plan ∧ application.fault.isSome ∧
      ∀ key after, rule.template.render object = .ok key →
        store.Puts key value.render document.name after →
        ∃ refusal, application.fault =
          some ⟨.find, .unmatched (.unpatchable place.canonical refusal), some key⟩) := by
  intro application
  have ends : Ends document object tree rule store plan application.store application.plan
    application.fault := ends_run
  constructor
  · intro fine
    rw [fine] at ends
    exact ends.patches_each located alike
  · rintro ⟨entry, here, refusal, met⟩
    have refused : ∀ entry ∈ entriesAt tree place, ∃ refusal,
        meetEntry document.raw place entry = .error refusal := by
      rcases alike with taken | refused
      · obtain ⟨patch, met'⟩ := taken entry here
        rw [met] at met'
        cases met'
      · exact refused
    obtain ⟨first, rest, entries⟩ := List.exists_cons_of_ne_nil (List.ne_nil_of_mem here)
    rw [entries] at refused
    obtain ⟨⟨first', met'⟩, others⟩ := List.forall_mem_cons.mp refused
    have unpatchable := Rewrite.patchesAt_of_entries_refused entries met' others
    obtain ⟨same, failed, reason⟩ := ends.of_unpatchable located unpatchable
    exact ⟨same, failed, fun key stored rendered puts => ⟨first', reason key stored rendered puts⟩⟩

/-- A document with a key that is written twice, on lines of their own. -/
@[irreducible] def repeated : Readable :=
  .of (.ofFields "a.yaml" "1\na: 2" "y") (by decide +kernel) (by decide +kernel) (by decide +kernel)

/-- Both entries of a key that is written twice are rewritten. -/
theorem run_patches_every_entry_repeated :
    ∃ value, repeated.decoded.object.locate ⟨[.field "a"]⟩ = .ok (⟨[.field "a"]⟩, value) ∧
      value.render = "2" ∧ Alike repeated.tree repeated.document.raw ⟨[.field "a"]⟩ ∧
      (entriesAt repeated.tree ⟨[.field "a"]⟩).length = 2 ∧
      ∃ key patches, List.Forall₂ (fun entry patch =>
          meetEntry repeated.document.raw ⟨[.field "a"]⟩ entry = .ok patch)
          (entriesAt repeated.tree ⟨[.field "a"]⟩) patches ∧
        (run repeated.document repeated.decoded.object repeated.tree (.ofField "a" "k")
          (.ofValues .empty) .empty).plan.entries = patches.map (·, key) := by
  obtain ⟨value, located, text⟩ := exists_located repeated.decoded.object
    ⟨[.field "a"]⟩ ⟨[.field "a"]⟩ "2" (by decide +kernel)
  have taken : ((entriesAt repeated.tree ⟨[.field "a"]⟩).all fun entry =>
      (meetEntry repeated.document.raw ⟨[.field "a"]⟩ entry).toOption.isSome) = true := by
    decide +kernel
  have alike : Alike repeated.tree repeated.document.raw ⟨[.field "a"]⟩ := by
    refine .inl fun entry mem => ?_
    have ok := List.all_eq_true.mp taken entry mem
    cases met : meetEntry repeated.document.raw ⟨[.field "a"]⟩ entry with
    | ok patch => exact ⟨patch, rfl⟩
    | error refusal => rw [met] at ok; cases ok
  have fine : (run repeated.document repeated.decoded.object repeated.tree (.ofField "a" "k")
      (.ofValues .empty) .empty).fault = none := by decide +kernel
  obtain ⟨key, patches, -, -, planned, each⟩ :=
    (@run_patches_every_entry _ _ _ (.ofField "a" "k") _ _ _ _ located alike).1 fine
  exact ⟨value, located, text, alike, by decide +kernel, key, patches, each, planned⟩

/-- A document with a key that is written twice, the second time in front of braces. -/
@[irreducible] def mixed : Readable :=
  .of (.ofFields "a.yaml" "\n  r: 1\na: \x7br: 2\x7d" "y") (by decide +kernel) (by decide +kernel)
    (by decide +kernel)

/-- Of two entries at the place of a value, the one in braces is refused and holds the value that is
read, and the rule succeeds with a patch for the other one. -/
theorem run_of_repeated_key :
    let path : Path := ⟨[.field "a", .field "r"]⟩
    let application := run mixed.document mixed.decoded.object mixed.tree
      ⟨.ofField "a.r" "k", path, ⟨"k", [.text "k"]⟩⟩ (.ofValues .empty) .empty
    (∃ value, mixed.decoded.object.locate path = .ok (path, value) ∧ value.render = "2") ∧
      (entriesAt mixed.tree path).map (fun entry => (entry.1.value.text?, entry.2)) =
        [(some "1", false), (some "2", true)] ∧
      application.fault = none ∧ application.plan.entries = [(⟨"$.a.r", 31, 34⟩, "k")] := by
  refine ⟨exists_located _ _ _ _ (by decide +kernel), by decide +kernel, by decide +kernel,
    by decide +kernel⟩

end Application

end ChartLift
