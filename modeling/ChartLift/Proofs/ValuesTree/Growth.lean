import ChartLift.Proofs.ValuesTree.Ordered

/-!
# What insertions change

An insertion binds its key to a leaf, makes the keys above it branches and leaves what is found at every
other key (`ValuesTree.insert_binds_key`). Insertions at different keys that succeed one after the other
do so in every order and come to the same tree (`ValuesTree.insertAll_perm`).
-/

namespace ChartLift.ValuesTree

/-! ## One insertion -/

lemma leavesOf_of_leaf {value : Value} (leaf : value.IsLeaf) : leavesOf value = 1 := by
  cases value with
  | mapping inner => exact absurd rfl (leaf inner)
  | _ => rfl

/-- A binding adds the leaves of its value and takes away those that were there. -/
lemma leaves_bind {entries : Entries} (ascending : entries.Ascending) (key : String)
    (value : Value) :
    leaves (entries.bind key value) + (entries.find? key).elim 0 leavesOf =
      leaves entries + leavesOf value := by
  induction entries with
  | nil => simp [Entries.bind, Entries.find?, leaves]
  | cons first rest ih =>
    obtain ⟨k, x⟩ := first
    obtain ⟨least, ascends⟩ := List.pairwise_cons.mp ascending
    rcases lt_trichotomy key k with before | rfl | behind
    · have free : Entries.find? ((k, x) :: rest) key = none :=
        Entries.find?_of_below (List.forall_mem_cons.mpr
          ⟨before, fun entry mem => before.trans (least entry mem)⟩)
      rw [free, Entries.bind, if_neg before.ne', if_pos before, leaves, Option.elim_none]
      omega
    · rw [Entries.bind, if_pos rfl, Entries.find?, if_pos rfl, leaves, leaves, Option.elim_some]
      omega
    · rw [Entries.bind, if_neg behind.ne, if_neg behind.asymm, Entries.find?, if_neg behind.ne,
        leaves, leaves]
      have := ih ascends
      omega

/-- The leaves that a slot offers to longer keys are those that it has. -/
lemma leaves_below? {slot : Option Value} {inner : Entries} (h : below? slot = some inner) :
    slot.elim 0 leavesOf = leaves inner := by
  rcases slot with _ | (_ | _ | _ | _ | _ | _ | _) <;> cases h <;> rfl

namespace Grows

variable {entries grown : Entries} {p : List String} {v : Value}

/-- There is one more leaf than before, unless one gave way. -/
lemma leaves_eq (grows : Grows entries p v grown) (leaf : v.IsLeaf)
    (ordered : (Value.mapping entries).Ordered) :
    leaves grown = leaves entries + if (getAt entries p).isNone then 1 else 0 := by
  induction grows with
  | @leaf entries segment v free =>
    have count := leaves_bind (Value.ordered_mapping_iff.mp ordered).1 segment v
    rw [leavesOf_of_leaf leaf] at count
    rw [getAt]
    cases found : entries.find? segment with
    | none => simpa [found] using count
    | some x =>
      have one : leavesOf x = 1 := leavesOf_of_leaf fun inner e => free inner (found.trans (e ▸ rfl))
      simpa [found, one] using count
  | @branch entries inner grown segment tail v slot grows ih =>
    have count := leaves_bind (Value.ordered_mapping_iff.mp ordered).1 segment (.mapping grown)
    rw [leaves_below? slot, leavesOf, ih leaf (ordered.below? slot)] at count
    rw [getAt_cons _ _ grows.ne_nil, slot, Option.bind_some]
    omega

end Grows

/-- That a key stands above another one: it has the first segments of that, but not all. -/
def Above (place key : String) : Prop := keySegments place <+: keySegments key ∧ place ≠ key

variable {tree grown : ValuesTree} {key : String} {value : Value} {previous : Option Value}
  {pairs pairs' : List (String × Value)}

/-- An insertion of a leaf gives back what was found at the key, and the leaf is found there from then
on. What is found at all other keys stays, but for those above the key: these are branches. There is
one leaf more, unless one gave way. -/
theorem insert_binds_key (ordered : tree.Ordered) (leaf : value.IsLeaf)
    (inserted : tree.insert key value = .ok (grown, previous)) :
    previous = tree.get? key ∧
      grown.get? key = some value ∧
      (∀ other, ¬ keySegments other <+: keySegments key → grown.get? other = tree.get? other) ∧
      (∀ other, Above other key → ∃ inner, grown.get? other = some (.mapping inner)) ∧
      grown.size = if previous.isNone then tree.size + 1 else tree.size := by
  obtain ⟨-, grows, rfl⟩ := insert_eq_ok_iff.mp inserted
  refine ⟨rfl, grows.getAt_self, fun other aside => grows.getAt_of_not_prefix leaf aside,
    fun other above => ?_, ?_⟩
  · exact grows.getAt_of_prefix above.1 (fun e => above.2 (keySegments_injective e))
      (keySegments_ne_nil other)
  · rw [size, grows.leaves_eq leaf ordered, ← size, ← get?]
    split <;> rfl

/-- A tree with a leaf, a branch, and a key that no dotted key names. -/
def seeded : ValuesTree :=
  ⟨[("a", .mapping [("b", .string "old"), ("c.d", .bool true)]), ("z", .null)]⟩

lemma ordered_seeded : seeded.Ordered := by
  refine .mapping (by decide) (List.forall_mem_cons.mpr
    ⟨.mapping (by decide) ?_, List.forall_mem_singleton.mpr (.leaf (by decide))⟩)
  exact List.forall_mem_cons.mpr
    ⟨.leaf (by decide), List.forall_mem_singleton.mpr (.leaf (by decide))⟩

/-- What is beside a new key below a branch stays, that key of one segment included whose text reads
like two. -/
theorem insert_binds_key_beside :
    seeded.Ordered ∧ (Value.integer 7).IsLeaf ∧
    ∃ grown, seeded.insert "a.c.d" (.integer 7) = .ok (grown, none) ∧
      grown.get? "a.c.d" = some (.integer 7) ∧
      (∀ other, ¬ keySegments other <+: keySegments "a.c.d" → grown.get? other = seeded.get? other) ∧
      (∃ inner, grown.get? "a.c" = some (.mapping inner)) ∧
      grown.size = 4 := by
  have leaf : (Value.integer 7).IsLeaf := by decide
  have inserted : seeded.insert "a.c.d" (.integer 7) = .ok (⟨[("a", .mapping [("b", .string "old"),
      ("c", .mapping [("d", .integer 7)]), ("c.d", .bool true)]), ("z", .null)]⟩, none) := by
    rfl
  obtain ⟨-, found, aside, above, size⟩ := insert_binds_key ordered_seeded leaf inserted
  exact ⟨ordered_seeded, leaf, _, inserted, found, aside, above "a.c" ⟨by decide, by decide⟩, size⟩

/-! ## Several insertions -/

/-- Inserts values at keys, one after the other. -/
def insertAll (tree : ValuesTree) : List (String × Value) → Except InsertFault ValuesTree
  | [] => .ok tree
  | (key, value) :: pairs =>
    match tree.insert key value with
    | .error fault => .error fault
    | .ok (grown, _) => insertAll grown pairs

lemma insertAll_cons_eq_ok_iff :
    tree.insertAll ((key, value) :: pairs) = .ok grown ↔
      ∃ middle previous, tree.insert key value = .ok (middle, previous) ∧
        middle.insertAll pairs = .ok grown := by
  rw [insertAll]
  constructor
  · intro all
    split at all
    · cases all
    · rename_i middle previous inserted
      exact ⟨middle, previous, inserted, all⟩
  · rintro ⟨middle, previous, inserted, rest⟩
    rw [inserted]
    exact rest

/-- Insertions of leaves at different keys change places. -/
lemma insertAll_swap {other : String} {w : Value} (leaf : value.IsLeaf) (ne : key ≠ other)
    (all : tree.insertAll ((key, value) :: (other, w) :: pairs) = .ok grown) :
    tree.insertAll ((other, w) :: (key, value) :: pairs) = .ok grown := by
  obtain ⟨first, _, inserted, all⟩ := insertAll_cons_eq_ok_iff.mp all
  obtain ⟨second, _, inserted', rest⟩ := insertAll_cons_eq_ok_iff.mp all
  obtain ⟨between, early, late⟩ := insert_comm inserted inserted' leaf ne
  exact insertAll_cons_eq_ok_iff.mpr
    ⟨between, _, early, insertAll_cons_eq_ok_iff.mpr ⟨second, _, late, rest⟩⟩

/-- Insertions of leaves at different keys that succeed in one order succeed in every order, and come
to the same tree with the same document. -/
theorem insertAll_perm (leaves : ∀ pair ∈ pairs, pair.2.IsLeaf) (distinct : (pairs.map (·.1)).Nodup)
    (all : tree.insertAll pairs = .ok grown) (perm : pairs.Perm pairs') :
    ∃ grown', tree.insertAll pairs' = .ok grown' ∧ grown' = grown ∧
      grown'.document = grown.document := by
  suffices again : tree.insertAll pairs' = .ok grown from ⟨grown, again, rfl, rfl⟩
  induction perm generalizing tree with
  | nil => exact all
  | cons pair _ ih =>
    obtain ⟨key, value⟩ := pair
    obtain ⟨middle, previous, inserted, rest⟩ := insertAll_cons_eq_ok_iff.mp all
    refine insertAll_cons_eq_ok_iff.mpr ⟨middle, previous, inserted, ih ?_ ?_ rest⟩
    · exact (List.forall_mem_cons.mp leaves).2
    · exact (List.nodup_cons.mp distinct).2
  | swap second first pairs =>
    obtain ⟨apart, -⟩ := List.nodup_cons.mp distinct
    exact insertAll_swap (leaves _ List.mem_cons_self)
      (fun same => apart (List.mem_cons.mpr (.inl same))) all
  | trans one _ ih ih' =>
    refine ih' (fun pair mem => leaves pair (one.mem_iff.mpr mem)) ?_ (ih leaves distinct all)
    exact (one.map _).nodup_iff.mp distinct

/-- Keys that share a branch, meet a seeded leaf or build on one another, in both orders. -/
theorem insertAll_perm_reverse :
    let pairs := [("a.b", .string "new"), ("s.t.u", .integer 1), ("a.c.d", .null), ("s.t.v", .bool true)]
    (∀ pair ∈ pairs, pair.2.IsLeaf) ∧ (pairs.map (·.1)).Nodup ∧
      ∃ grown, seeded.insertAll pairs = .ok grown ∧ pairs.Perm pairs.reverse ∧
        seeded.insertAll pairs.reverse = .ok grown := by
  intro pairs
  have leaves : ∀ pair ∈ pairs, pair.2.IsLeaf := by decide
  have all : seeded.insertAll pairs = .ok ⟨[("a", .mapping [("b", .string "new"),
      ("c", .mapping [("d", .null)]), ("c.d", .bool true)]),
      ("s", .mapping [("t", .mapping [("u", .integer 1), ("v", .bool true)])]), ("z", .null)]⟩ := by
    rfl
  obtain ⟨grown, again, rfl, -⟩ :=
    insertAll_perm leaves (by decide) all (List.reverse_perm pairs).symm
  exact ⟨leaves, by decide, _, all, (List.reverse_perm pairs).symm, again⟩

end ChartLift.ValuesTree
