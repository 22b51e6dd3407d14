import ChartLift.Rewrite.Patch
import Mathlib.Tactic.Lemma

/-!
# Plans as one splice

Patches are added to a plan exactly if no two patches of the plan overlap afterwards
(`Plan.add_eq_ok_iff`). If each of them takes at least one byte, applying them from the last one to
the first is replacing all their bytes at once (`Plan.apply_eq_splice`), and the order in which they
were planned does not matter (`Plan.apply_eq_of_perm`).
-/

namespace ChartLift.Rewrite

open Text (Bytes)

/-! ## Overlaps -/

namespace Patch

/-- A patch that takes at least one byte of a document, and none beyond it. -/
structure Proper (source : Bytes) (patch : Patch) : Prop where
  nonempty : patch.keep + 1 < patch.resume
  inside : patch.resume ≤ source.length

variable {source : Bytes} {a b : Patch}

lemma overlaps_comm (a b : Patch) : a.overlaps b = b.overlaps a := by
  rw [overlaps, overlaps, Bool.and_comm]

/-- Proper patches do not overlap if one resumes before the other begins. -/
lemma Proper.overlaps_eq_false_iff (ha : a.Proper source) (hb : b.Proper source) :
    a.overlaps b = false ↔ a.resume ≤ b.keep + 1 ∨ b.resume ≤ a.keep + 1 := by
  have := ha.nonempty
  have := hb.nonempty
  rw [Bool.eq_false_iff, overlaps, ne_eq, Bool.and_eq_true, decide_eq_true_eq, decide_eq_true_eq,
    first, first, stop, stop]
  omega

end Patch

namespace Plan

/-- No two patches of a plan overlap. -/
def Disjoint (plan : Plan) : Prop :=
  plan.entries.Pairwise fun a b => a.1.overlaps b.1 = false

/-- Nothing overlaps if no patch overlaps one taken before nor an earlier one. -/
lemma firstOverlap?_eq_none_iff {taken patches : List Patch} :
    firstOverlap? taken patches = none ↔
      (∀ a ∈ taken, ∀ b ∈ patches, a.overlaps b = false) ∧
        patches.Pairwise fun a b => a.overlaps b = false := by
  induction patches generalizing taken with
  | nil => simp [firstOverlap?]
  | cons patch rest ih =>
    rw [firstOverlap?]
    cases found : taken.find? (·.overlaps patch) with
    | some other =>
      have bad := List.find?_some found
      have mem := List.mem_of_find?_eq_some found
      constructor
      · intro h; cases h
      · rintro ⟨apart, _⟩
        rw [apart other mem patch (List.mem_cons_self ..)] at bad
        cases bad
    | none =>
      have fine : ∀ a ∈ taken, a.overlaps patch = false := by
        simpa using List.find?_eq_none.mp found
      rw [ih, List.pairwise_cons]
      constructor
      · -- the patch counts as taken for those behind it
        rintro ⟨apart, rest⟩
        refine ⟨fun a mem b memb => ?_, fun b memb => ?_, rest⟩
        · rcases List.mem_cons.mp memb with rfl | memb
          · exact fine a mem
          · exact apart a (List.mem_append_left _ mem) b memb
        · exact apart patch (List.mem_append_right _ (List.mem_singleton_self _)) b memb
      · rintro ⟨apart, here, rest⟩
        refine ⟨fun a mem b memb => ?_, rest⟩
        rcases List.mem_append.mp mem with mem | mem
        · exact apart a mem b (List.mem_cons_of_mem _ memb)
        · rw [List.mem_singleton.mp mem]
          exact here b memb

/-- Patches are added to a plan exactly if nothing overlaps in it afterwards. -/
lemma add_eq_ok_iff {plan grown : Plan} {patches : List Patch} {key : String}
    (disjoint : plan.Disjoint) :
    plan.add patches key = .ok grown ↔
      grown = ⟨plan.entries ++ patches.map (·, key)⟩ ∧ grown.Disjoint := by
  have fits : plan.check patches = none ↔
      Disjoint ⟨plan.entries ++ patches.map (·, key)⟩ := by
    rw [check, firstOverlap?_eq_none_iff, Disjoint, List.pairwise_append, List.pairwise_map]
    constructor
    · rintro ⟨apart, among⟩
      refine ⟨disjoint, among, fun a mem b memb => ?_⟩
      obtain ⟨patch, memp, rfl⟩ := List.mem_map.mp memb
      exact apart a.1 (List.mem_map_of_mem mem) patch memp
    · rintro ⟨_, among, apart⟩
      refine ⟨fun a mem b memb => ?_, among⟩
      obtain ⟨entry, meme, rfl⟩ := List.mem_map.mp mem
      exact apart entry meme (b, key) (List.mem_map_of_mem memb)
  rw [add]
  cases found : plan.check patches with
  | some overlap =>
    constructor
    · intro h; cases h
    · rintro ⟨rfl, apart⟩
      rw [fits.mpr apart] at found
      cases found
  | none =>
    constructor
    · intro h; cases h; exact ⟨rfl, fits.mp found⟩
    · rintro ⟨rfl, _⟩; rfl

/-- A plan takes no patches one of which overlaps a planned one. -/
lemma add_eq_error_of_overlaps {plan : Plan} {patches : List Patch} {planned : Patch × String}
    {patch : Patch} (old : planned ∈ plan.entries) (new : patch ∈ patches)
    (overlaps : planned.1.overlaps patch = true) (key : String) :
    ∃ overlap, plan.add patches key = .error overlap := by
  rw [add]
  cases found : plan.check patches with
  | some overlap => exact ⟨overlap, rfl⟩
  | none =>
    have apart := (firstOverlap?_eq_none_iff.mp found).1 planned.1 (List.mem_map_of_mem old) patch new
    rw [overlaps] at apart
    cases apart

lemma add_nil (plan : Plan) (key : String) : plan.add [] key = .ok plan := by
  simp [add, check, firstOverlap?]

/-- If nothing overlaps in a plan, nothing overlapped before it was added to. -/
lemma Disjoint.of_append {plan grown : Plan} {more : List (Patch × String)}
    (disjoint : grown.Disjoint) (grows : grown.entries = plan.entries ++ more) : plan.Disjoint := by
  rw [Disjoint, grows] at disjoint
  exact (List.pairwise_append.mp disjoint).1

/-- A plan that has been added to holds the new patches behind the old ones. -/
lemma entries_of_add {plan grown : Plan} {patches : List Patch} {key : String}
    (h : plan.add patches key = .ok grown) :
    grown.entries = plan.entries ++ patches.map (·, key) := by
  rw [add] at h
  cases found : plan.check patches with
  | some overlap => rw [found] at h; cases h
  | none => rw [found] at h; cases h; rfl

lemma disjoint_empty : Disjoint empty := List.Pairwise.nil

end Plan

/-! ## Splices -/

/-- Bytes that take the place of a range. -/
structure Replacement where
  first : Nat
  stop : Nat
  bytes : Bytes

/-- A document from a byte on, with replacements in ascending order made all at once. -/
def splice (source : Bytes) (start : Nat) : List Replacement → Bytes
  | [] => source.drop start
  | r :: rest => (source.take r.first).drop start ++ r.bytes ++ splice source r.stop rest

/-- Making the last replacement first changes nothing. -/
lemma splice_concat {source : Bytes} {start : Nat} {rs : List Replacement} {last : Replacement}
    (inside : last.first ≤ source.length) (within : start ≤ last.first)
    (below : ∀ r ∈ rs, r.first ≤ last.first ∧ r.stop ≤ last.first) :
    splice source start (rs ++ [last]) =
      splice (source.take last.first ++ last.bytes ++ source.drop last.stop) start rs := by
  have length : (source.take last.first).length = last.first := List.length_take_of_le inside
  induction rs generalizing start with
  | nil =>
    simp only [List.nil_append, splice, List.append_assoc]
    rw [List.drop_append_of_le_length (by rw [length]; exact within)]
  | cons r rs ih =>
    obtain ⟨first, stop⟩ := below r (List.mem_cons_self ..)
    have rest := ih stop fun r' mem => below r' (List.mem_cons_of_mem _ mem)
    rw [List.cons_append, splice, splice, rest, List.append_assoc (source.take _),
      List.take_append_of_le_length (by rw [length]; exact first), List.take_take,
      Nat.min_eq_left first]

namespace Patch

variable {source : Bytes}

/-- What a patch puts behind the last byte it keeps. -/
def replacement (source : Bytes) (entry : Patch × String) : Replacement :=
  ⟨entry.1.keep + 1, entry.1.resume,
    (if source[entry.1.keep]? = some 58 then [32] else [])
      ++ Text.bytes (referenceExpression entry.2)⟩

/-- A proper patch makes its replacement. -/
lemma Proper.apply_eq {patch : Patch} (proper : patch.Proper source) (key : String) :
    patch.apply key source =
      source.take (patch.keep + 1) ++ (replacement source (patch, key)).bytes
        ++ source.drop patch.resume := by
  have nonempty := proper.nonempty
  have inside := proper.inside
  have filled : source.isEmpty = false := by
    cases source with
    | nil => simp only [List.length_nil] at inside; omega
    | cons b rest => rfl
  have keep : min patch.keep (source.length - 1) = patch.keep := by omega
  have resume : min (max patch.resume (patch.keep + 1)) source.length = patch.resume := by omega
  simp only [apply, filled, keep, resume, replacement, List.append_assoc, Bool.false_eq_true,
    ↓reduceIte]

/-- A proper patch leaves what stands up to the last byte it keeps. -/
lemma Proper.take_apply {patch : Patch} (proper : patch.Proper source) (key : String) :
    (patch.apply key source).take (patch.keep + 1) = source.take (patch.keep + 1) := by
  have := proper.nonempty
  have := proper.inside
  have length : (source.take (patch.keep + 1)).length = patch.keep + 1 :=
    List.length_take_of_le (by omega)
  rw [proper.apply_eq, List.append_assoc, List.take_append_of_le_length (Nat.le_of_eq length.symm),
    List.take_take, Nat.min_self]

/-- What a patch finds below another one is what it finds in the source. -/
lemma Proper.below {patch other : Patch} (proper : patch.Proper source) (key : String)
    (other_proper : other.Proper source) (below : other.resume ≤ patch.keep + 1) :
    other.Proper (patch.apply key source) ∧
      ∀ k, replacement (patch.apply key source) (other, k) = replacement source (other, k) := by
  have := proper.nonempty
  have := proper.inside
  have := other_proper.nonempty
  have take := proper.take_apply key
  have length : patch.keep + 1 ≤ (patch.apply key source).length := by
    have := congrArg List.length take
    simp only [List.length_take] at this
    omega
  refine ⟨⟨other_proper.nonempty, by omega⟩, fun k => ?_⟩
  have same : (patch.apply key source)[other.keep]? = source[other.keep]? := by
    rw [← List.getElem?_take_of_lt (show other.keep < patch.keep + 1 by omega), take,
      List.getElem?_take_of_lt (by omega)]
  simp only [replacement, same]

end Patch

/-- Patches applied from the last one to the first make all their replacements at once. -/
lemma foldl_apply_eq_splice {source : Bytes} {entries : List (Patch × String)}
    (proper : ∀ entry ∈ entries, entry.1.Proper source)
    (descending : entries.Pairwise fun a b => b.1.resume ≤ a.1.keep + 1) :
    entries.foldl (fun data entry => entry.1.apply entry.2 data) source =
      splice source 0 (entries.reverse.map (Patch.replacement source)) := by
  induction entries generalizing source with
  | nil => rfl
  | cons entry rest ih =>
    obtain ⟨patch, key⟩ := entry
    obtain ⟨below, descending⟩ := List.pairwise_cons.mp descending
    have here : patch.Proper source := proper _ (List.mem_cons_self ..)
    have := here.nonempty
    have := here.inside
    -- the patch applied first is the last one, so that the others find their bytes unmoved
    have later : ∀ entry ∈ rest, entry.1.Proper (patch.apply key source) ∧
        ∀ k, Patch.replacement (patch.apply key source) (entry.1, k) =
          Patch.replacement source (entry.1, k) :=
      fun entry mem => here.below key (proper entry (List.mem_cons_of_mem _ mem)) (below entry mem)
    have same : rest.reverse.map (Patch.replacement (patch.apply key source)) =
        rest.reverse.map (Patch.replacement source) :=
      List.map_congr_left fun entry mem => (later entry (List.mem_reverse.mp mem)).2 entry.2
    rw [List.foldl_cons, ih (fun entry mem => (later entry mem).1) descending, same,
      List.reverse_cons, List.map_append, List.map_singleton, splice_concat, here.apply_eq]
    · rfl
    · show patch.keep + 1 ≤ source.length
      omega
    · exact Nat.zero_le _
    · intro r mem
      obtain ⟨entry, member, rfl⟩ := List.mem_map.mp mem
      have mem := List.mem_reverse.mp member
      have := (proper entry (List.mem_cons_of_mem _ mem)).nonempty
      have stop : entry.1.resume ≤ patch.keep + 1 := below entry mem
      have first : entry.1.keep + 1 ≤ patch.keep + 1 := by omega
      exact ⟨first, stop⟩

namespace Plan

variable {source : Bytes} {plan plan' : Plan}

/-- Descending order is an order of the planned patches. -/
lemma descending_perm (plan : Plan) : plan.descending.Perm plan.entries :=
  List.mergeSort_perm _ _

/-- A plan without patches changes nothing. -/
lemma apply_of_size_eq_zero (none : plan.size = 0) : plan.apply source = source := by
  have empty : plan.descending = [] := by
    have perm := plan.descending_perm
    rwa [List.eq_nil_of_length_eq_zero none, List.perm_nil] at perm
  rw [apply, empty]
  rfl

/-- In descending order no patch begins behind the one ahead of it. -/
lemma descending_keep (plan : Plan) :
    plan.descending.Pairwise fun a b => b.1.keep ≤ a.1.keep := by
  have sorted : plan.descending.Pairwise fun a b => decide (b.1.keep ≤ a.1.keep) = true := by
    apply List.pairwise_mergeSort
    · intro a b c ab bc
      simp only [decide_eq_true_eq] at ab bc ⊢
      omega
    · intro a b
      simp only [Bool.or_eq_true, decide_eq_true_eq]
      omega
  exact sorted.imp fun h => of_decide_eq_true h

/-- In descending order each patch resumes before the one ahead of it begins. -/
lemma Disjoint.descending (disjoint : plan.Disjoint)
    (proper : ∀ entry ∈ plan.entries, entry.1.Proper source) :
    plan.descending.Pairwise fun a b => b.1.resume ≤ a.1.keep + 1 := by
  have apart : plan.descending.Pairwise fun a b => a.1.overlaps b.1 = false :=
    (plan.descending_perm.pairwise_iff fun h => by rwa [Patch.overlaps_comm]).mpr disjoint
  refine (plan.descending_keep.and apart).imp_of_mem fun {a b} memA memB h => ?_
  have properA := proper a (plan.descending_perm.mem_iff.mp memA)
  have properB := proper b (plan.descending_perm.mem_iff.mp memB)
  have := properA.nonempty
  rcases (properA.overlaps_eq_false_iff properB).mp h.2 with before | behind
  · have := h.1
    omega
  · exact behind

/-- Applying a plan makes all its replacements at once. -/
lemma apply_eq_splice (disjoint : plan.Disjoint)
    (proper : ∀ entry ∈ plan.entries, entry.1.Proper source) :
    plan.apply source =
      splice source 0 (plan.descending.reverse.map (Patch.replacement source)) :=
  foldl_apply_eq_splice
    (fun entry mem => proper entry (plan.descending_perm.mem_iff.mp mem))
    (disjoint.descending proper)

/-- Whether nothing overlaps does not depend on the order of planning. -/
lemma Disjoint.perm (disjoint : plan.Disjoint) (perm : plan.entries.Perm plan'.entries) :
    plan'.Disjoint :=
  (perm.pairwise_iff fun h => by rwa [Patch.overlaps_comm]).mp disjoint

/-- What a plan makes of a document does not depend on the order of planning. -/
lemma apply_eq_of_perm (disjoint : plan.Disjoint)
    (proper : ∀ entry ∈ plan.entries, entry.1.Proper source)
    (perm : plan.entries.Perm plan'.entries) : plan.apply source = plan'.apply source := by
  have same : plan.descending = plan'.descending := by
    have perm' : plan.descending.Perm plan'.descending :=
      (plan.descending_perm.trans perm).trans plan'.descending_perm.symm
    have proper' : ∀ entry ∈ plan'.entries, entry.1.Proper source :=
      fun entry mem => proper entry (perm.mem_iff.mpr mem)
    refine List.Perm.eq_of_pairwise ?_ (disjoint.descending proper)
      ((disjoint.perm perm).descending proper') perm'
    intro a b memA memB ab ba
    have := (proper a (plan.descending_perm.mem_iff.mp memA)).nonempty
    have := (proper' b (plan'.descending_perm.mem_iff.mp memB)).nonempty
    omega
  rw [apply, apply, same]

end Plan

end ChartLift.Rewrite
