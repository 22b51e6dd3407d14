import ChartLift.Proofs.Rewrite.Plan

/-!
# Plans that have grown

A plan grows by additions that succeed, each of some patches for one values key. What it has grown
into depends on nothing but the patches (`Plan.grows_iff`), and applying it replaces all their bytes
at once, whatever the order of the additions (`Plan.apply_of_grows`).
-/

namespace ChartLift.Rewrite

open Text (Bytes)

/-- That a byte gives way to a patch. -/
def Patch.Replaces (patch : Patch) (i : Nat) : Prop := patch.first ≤ i ∧ i < patch.stop

lemma Patch.Proper.stop_eq {source : Bytes} {patch : Patch} (proper : patch.Proper source) :
    patch.stop = patch.resume :=
  Nat.max_eq_left (Nat.le_of_lt proper.nonempty)

namespace Plan

/-- That a plan grows into another one by additions that succeed, one after the other. -/
inductive Grows : Plan → List (List Patch × String) → Plan → Prop where
  | done {plan} :
    Grows plan [] plan
  | add {plan next grown patches key additions} :
    plan.add patches key = .ok next →
    Grows next additions grown →
    Grows plan ((patches, key) :: additions) grown

/-- The patches of additions, each with its key. -/
def requested (additions : List (List Patch × String)) : List (Patch × String) :=
  additions.flatMap fun addition => addition.1.map (·, addition.2)

variable {source : Bytes} {plan grown : Plan} {additions additions' : List (List Patch × String)}

/-- Additions succeed exactly if nothing overlaps in the plan that holds all their patches. -/
lemma grows_iff (disjoint : plan.Disjoint) :
    Grows plan additions grown ↔
      grown = ⟨plan.entries ++ requested additions⟩ ∧ grown.Disjoint := by
  induction additions generalizing plan with
  | nil =>
    have same : (⟨plan.entries ++ requested []⟩ : Plan) = plan :=
      congrArg Plan.mk (List.append_nil plan.entries)
    rw [same]
    constructor
    · intro grows
      cases grows
      exact ⟨rfl, disjoint⟩
    · rintro ⟨rfl, -⟩
      exact .done
  | cons addition additions ih =>
    obtain ⟨patches, key⟩ := addition
    have all : plan.entries ++ requested ((patches, key) :: additions) =
        (plan.entries ++ patches.map (·, key)) ++ requested additions := by
      rw [List.append_assoc]
      rfl
    rw [all]
    constructor
    · intro grows
      cases grows with
      | add added grows =>
        obtain ⟨rfl, apart⟩ := (add_eq_ok_iff disjoint).mp added
        exact (ih apart).mp grows
    · rintro ⟨rfl, apart⟩
      have next : Disjoint ⟨plan.entries ++ patches.map (·, key)⟩ := apart.of_append rfl
      exact .add ((add_eq_ok_iff disjoint).mpr ⟨rfl, next⟩) ((ih next).mpr ⟨rfl, apart⟩)

lemma mem_requested {entry : Patch × String} :
    entry ∈ requested additions ↔ ∃ patches, (patches, entry.2) ∈ additions ∧ entry.1 ∈ patches := by
  obtain ⟨patch, key⟩ := entry
  rw [requested, List.mem_flatMap]
  constructor
  · rintro ⟨⟨patches, key'⟩, addition, mem⟩
    obtain ⟨patch', member, same⟩ := List.mem_map.mp mem
    cases same
    exact ⟨patches, addition, member⟩
  · rintro ⟨patches, addition, mem⟩
    exact ⟨(patches, key), addition, List.mem_map_of_mem mem⟩

/-- No byte gives way to two patches if no two proper patches overlap. -/
lemma Disjoint.replaces (disjoint : plan.Disjoint)
    (proper : ∀ entry ∈ plan.entries, entry.1.Proper source) :
    plan.entries.Pairwise fun a b => ∀ i, a.1.Replaces i → ¬ b.1.Replaces i := by
  refine disjoint.imp_of_mem fun {a b} memA memB apart i inA inB => ?_
  have properA := proper a memA
  have properB := proper b memB
  rw [Patch.Replaces, properA.stop_eq, Patch.first] at inA
  rw [Patch.Replaces, properB.stop_eq, Patch.first] at inB
  rcases (properA.overlaps_eq_false_iff properB).mp apart with before | behind
  · omega
  · omega

/-- In a plan that has grown from the empty one by additions of proper patches no byte gives way to
two of them. Applying it makes all replacements at once, in ascending order, and the same patches in any
other order grow into a plan that does the same. -/
theorem apply_of_grows (grows : Grows empty additions plan)
    (proper : ∀ addition ∈ additions, ∀ patch ∈ addition.1, patch.Proper source) :
    (plan.entries.Pairwise fun a b => ∀ i, a.1.Replaces i → ¬ b.1.Replaces i) ∧
      (∃ ascending : List (Patch × String), ascending.Perm plan.entries ∧
        (ascending.Pairwise fun a b => a.1.stop ≤ b.1.first) ∧
        plan.apply source = splice source 0 (ascending.map (Patch.replacement source))) ∧
      ∀ additions', (requested additions').Perm (requested additions) →
        ∃ plan', Grows empty additions' plan' ∧ plan'.apply source = plan.apply source := by
  obtain ⟨rfl, disjoint⟩ := (grows_iff disjoint_empty).mp grows
  have proper : ∀ entry ∈ requested additions, entry.1.Proper source := by
    intro entry mem
    obtain ⟨patches, addition, mem⟩ := mem_requested.mp mem
    exact proper _ addition _ mem
  refine ⟨disjoint.replaces proper, ⟨_, ?_, ?_, apply_eq_splice disjoint proper⟩, ?_⟩
  · exact (List.reverse_perm _).trans (descending_perm _)
  · rw [List.pairwise_reverse]
    refine (disjoint.descending proper).imp_of_mem fun {a b} _ memB before => ?_
    have properB := proper b ((descending_perm _).mem_iff.mp memB)
    rw [properB.stop_eq]
    exact before
  · intro additions' perm
    have disjoint' : Disjoint ⟨requested additions'⟩ := disjoint.perm perm.symm
    refine ⟨_, (grows_iff disjoint_empty).mpr ⟨rfl, disjoint'⟩, ?_⟩
    exact (apply_eq_of_perm disjoint proper perm.symm).symm

/-- A document with three entries. -/
def threeLines : Bytes := Text.bytes "a: 1\nb: 2\nc:\n  3\n"

/-- Patches of which one keeps a colon at the end of its line, and another a byte that gives way to
its neighbour. -/
def threeAdditions : List (List Patch × String) :=
  [([⟨"$.c", 11, 17⟩], "k"), ([⟨"$.b", 4, 8⟩, ⟨"$.a", 2, 5⟩], "l")]

/-- The plan that grows by them. -/
def threePlan : Plan :=
  ⟨[(⟨"$.c", 11, 17⟩, "k"), (⟨"$.b", 4, 8⟩, "l"), (⟨"$.a", 2, 5⟩, "l")]⟩

/-- Neighbouring patches are applied at once, in either order. -/
theorem apply_of_grows_adjacent :
    Grows empty threeAdditions threePlan ∧
      (∀ addition ∈ threeAdditions, ∀ patch ∈ addition.1, patch.Proper threeLines) ∧
      (∃ ascending : List (Patch × String), ascending.Perm threePlan.entries ∧
        (ascending.Pairwise fun a b => a.1.stop ≤ b.1.first) ∧
        threePlan.apply threeLines =
          splice threeLines 0 (ascending.map (Patch.replacement threeLines))) ∧
      ∃ plan, Grows empty threeAdditions.reverse plan ∧
        plan.apply threeLines = threePlan.apply threeLines := by
  have grows : Grows empty threeAdditions threePlan := .add rfl (.add rfl .done)
  have proper : ∀ addition ∈ threeAdditions, ∀ patch ∈ addition.1, patch.Proper threeLines :=
    List.forall_mem_cons.mpr ⟨List.forall_mem_singleton.mpr ⟨by decide, by decide⟩,
      List.forall_mem_singleton.mpr (List.forall_mem_cons.mpr ⟨⟨by decide, by decide⟩,
        List.forall_mem_singleton.mpr ⟨by decide, by decide⟩⟩)⟩
  obtain ⟨-, spliced, permuted⟩ := apply_of_grows grows proper
  exact ⟨grows, proper, spliced, permuted threeAdditions.reverse (by decide)⟩

end Plan

end ChartLift.Rewrite
