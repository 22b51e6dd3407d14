import ChartLift.Proofs.Text.Split
import ChartLift.ValuesTree.Basic
import Mathlib.Data.String.Basic

/-!
# Insertion into a values tree

When an insertion succeeds and what it does to the tree, as the relation `Grows` that follows the
segments of the key. From it come the frame of an insertion (`Grows.getAt_of_not_prefix`: what is found
off the way to the key stays; `Grows.getAt_of_ne`: so does every leaf), and that insertions do not
depend on their order (`Grows.comm`) nor on being made twice (`Grows.again`). `insert_eq_ok_iff`
carries the relation over to dotted keys, which name different places exactly if they differ
(`keySegments_injective`).
-/

namespace ChartLift

/-- Keys with the same segments are the same. -/
lemma keySegments_injective {a b : String} (h : keySegments a = keySegments b) : a = b := by
  have parts : Text.splitAt '.' a.toList = Text.splitAt '.' b.toList :=
    List.map_injective_iff.mpr (fun _ _ e => String.ofList_injective e) h
  have joined := congrArg (['.'].intercalate ·) parts
  simp only [Text.splitAt_eq_splitOn, List.intercalate_splitOn] at joined
  exact String.toList_injective joined

lemma keySegments_ne_nil (key : String) : keySegments key ≠ [] := by
  rw [keySegments, Text.splitAt_eq_splitOn, Ne, List.map_eq_nil_iff]
  exact List.splitOnP_ne_nil _ _

/-- A value that is no mapping, so that nothing stands below it. -/
def Value.IsLeaf (value : Value) : Prop := ∀ inner, value ≠ .mapping inner

lemma Value.isLeaf_string (s : String) : (Value.string s).IsLeaf := by
  intro inner e
  cases e

namespace Entries

/-- Binding a key and then a greater one is binding the greater one first. -/
lemma bind_bind_of_lt (entries : Entries) {a b : String} (v w : Value) (lt : a < b) :
    (entries.bind a v).bind b w = (entries.bind b w).bind a v := by
  have ne : a ≠ b := lt.ne
  induction entries with
  | nil => simp [bind, ne, ne.symm, lt, lt.asymm]
  | cons entry rest ih =>
    obtain ⟨k, x⟩ := entry
    rcases lt_trichotomy a k with ak | rfl | ka
    · -- the new binding of `a` stands in front, whatever becomes of `b`
      rcases lt_trichotomy b k with bk | rfl | kb
      · simp [bind, ne, ne.symm, lt, lt.asymm, ak, ak.ne', bk, bk.ne']
      · simp [bind, ne, ne.symm, lt, lt.asymm]
      · simp [bind, ne, lt.asymm, ak, ak.ne', kb.ne, kb.asymm]
    · simp [bind, ne, lt.asymm]
    · have kb := ka.trans lt
      simp [bind, ka.ne, ka.asymm, kb.ne, kb.asymm, ih]

/-- Bindings of different keys commute. -/
lemma bind_comm (entries : Entries) {a b : String} (v w : Value) (ne : a ≠ b) :
    (entries.bind a v).bind b w = (entries.bind b w).bind a v := by
  rcases lt_or_gt_of_ne ne with lt | gt
  · exact bind_bind_of_lt entries v w lt
  · exact (bind_bind_of_lt entries w v gt).symm

/-- Of two bindings of a key the later one counts. -/
lemma bind_bind (entries : Entries) (key : String) (v w : Value) :
    (entries.bind key v).bind key w = entries.bind key w := by
  induction entries with
  | nil => simp [bind]
  | cons entry rest ih =>
    obtain ⟨k, x⟩ := entry
    by_cases same : k = key
    · simp [bind, same]
    · by_cases before : key < k
      · simp [bind, same, before]
      · simp [bind, same, before, ih]

end Entries

namespace ValuesTree

/-- The entries that a slot offers to longer keys: a free slot has none, a leaf refuses them. -/
def below? : Option Value → Option Entries
  | none => some []
  | some (.mapping inner) => some inner
  | some _ => none

/-- Insertion below segments where it succeeds. -/
inductive Grows : Entries → List String → Value → Entries → Prop where
  | leaf {entries : Entries} {segment value} :
    (∀ inner, entries.find? segment ≠ some (.mapping inner)) →
    Grows entries [segment] value (entries.bind segment value)
  | branch {entries inner grown : Entries} {segment rest value} :
    below? (entries.find? segment) = some inner →
    Grows inner rest value grown →
    Grows entries (segment :: rest) value (entries.bind segment (.mapping grown))

lemma below?_leaf {v : Value} (leaf : v.IsLeaf) : below? (some v) = none := by
  cases v with
  | mapping inner => exact absurd rfl (leaf inner)
  | _ => rfl

lemma ne_leaf_of_below? {slot : Option Value} {inner : Entries} {x : Value}
    (h : below? slot = some inner) (leaf : x.IsLeaf) : slot ≠ some x := by
  rintro rfl
  rw [below?_leaf leaf] at h
  cases h

lemma getAt_nil (segments : List String) : getAt [] segments = none := by
  rcases segments with _ | ⟨segment, _ | ⟨next, rest⟩⟩ <;> rfl

/-- Nothing is found through a slot that holds no branch. -/
lemma getAt_below?_of_no_branch {slot : Option Value} (segments : List String)
    (free : ∀ inner, slot ≠ some (.mapping inner)) :
    (below? slot).bind (getAt · segments) = none := by
  cases slot with
  | none => exact getAt_nil segments
  | some v => rw [below?_leaf fun inner e => free inner (congrArg some e)]; rfl

/-- What is found behind a first segment is found in the entries of its slot. -/
lemma getAt_cons (entries : Entries) (segment : String) {rest : List String} (long : rest ≠ []) :
    getAt entries (segment :: rest) = (below? (entries.find? segment)).bind (getAt · rest) := by
  obtain ⟨next, rest, rfl⟩ := List.exists_cons_of_ne_nil long
  rw [getAt]
  · cases entries.find? segment with
    | none => cases rest <;> rfl
    | some found => cases found <;> rfl
  · exact fun e => nomatch e

/-- Insertion behind a first segment goes through the entries of its slot. -/
lemma insertAt_cons (entries : Entries) (segment : String) {rest : List String} (value : Value)
    (long : rest ≠ []) :
    insertAt entries (segment :: rest) value =
      match below? (entries.find? segment) with
      | none => .error [segment]
      | some inner =>
        match insertAt inner rest value with
        | .error place => .error (segment :: place)
        | .ok (grown, previous) => .ok (entries.bind segment (.mapping grown), previous) := by
  obtain ⟨next, rest, rfl⟩ := List.exists_cons_of_ne_nil long
  rw [insertAt]
  · cases entries.find? segment with
    | none => rfl
    | some found => cases found <;> rfl
  · exact fun e => nomatch e

/-- A branch cannot give way to a value. -/
lemma insertAt_of_branch {entries inner : Entries} {segment : String} (value : Value)
    (branch : entries.find? segment = some (.mapping inner)) :
    insertAt entries [segment] value = .error [segment] := by
  rw [insertAt, branch]

/-- A free slot and a leaf take a value. -/
lemma insertAt_of_no_branch {entries : Entries} {segment : String} (value : Value)
    (free : ∀ inner, entries.find? segment ≠ some (.mapping inner)) :
    insertAt entries [segment] value =
      .ok (entries.bind segment value, entries.find? segment) := by
  rw [insertAt]
  split
  · next inner found => exact absurd found (free inner)
  · rfl

/-- An insertion succeeds as `Grows` says, and tells what was found before. -/
lemma insertAt_eq_ok_iff {entries grown : Entries} {segments : List String} {value : Value}
    {previous : Option Value} :
    insertAt entries segments value = .ok (grown, previous) ↔
      Grows entries segments value grown ∧ previous = getAt entries segments := by
  induction segments generalizing entries grown previous with
  | nil =>
    constructor
    · intro h; cases h
    · rintro ⟨⟨⟩, _⟩
  | cons segment rest ih =>
    by_cases short : rest = []
    · subst short
      by_cases branch : ∃ inner, entries.find? segment = some (.mapping inner)
      · obtain ⟨inner, found⟩ := branch
        rw [insertAt_of_branch value found]
        constructor
        · intro h; cases h
        · rintro ⟨grows, _⟩
          cases grows with
          | leaf free => exact absurd found (free inner)
          | branch _ grows => cases grows
      · have free := not_exists.mp branch
        rw [insertAt_of_no_branch value free, getAt]
        constructor
        · intro h; cases h; exact ⟨.leaf free, rfl⟩
        · rintro ⟨grows, rfl⟩
          cases grows with
          | leaf => rfl
          | branch _ grows => cases grows
    · rw [insertAt_cons entries segment value short, getAt_cons entries segment short]
      cases slot : below? (entries.find? segment) with
      | none =>
        constructor
        · intro h; cases h
        · rintro ⟨grows, _⟩
          cases grows with
          | leaf => exact absurd rfl short
          | branch slot' _ => rw [slot] at slot'; cases slot'
      | some inner =>
        simp only [Option.bind_some]
        constructor
        · intro h
          cases inserted : insertAt inner rest value with
          | error place => rw [inserted] at h; cases h
          | ok result =>
            obtain ⟨below, found⟩ := result
            rw [inserted] at h
            cases h
            obtain ⟨grows, e⟩ := ih.mp inserted
            exact ⟨.branch slot grows, e⟩
        · rintro ⟨grows, e⟩
          cases grows with
          | leaf => exact absurd rfl short
          | branch slot' grows =>
            rw [slot] at slot'
            cases slot'
            rw [ih.mpr ⟨grows, e⟩]

namespace Grows

variable {entries grown grown' : Entries} {p q : List String} {v w x : Value}

lemma ne_nil (h : Grows entries p v grown) : p ≠ [] := by
  cases h <;> exact List.cons_ne_nil _ _

lemma unique (h : Grows entries p v grown) (h' : Grows entries p v grown') : grown = grown' := by
  have e := insertAt_eq_ok_iff.mpr ⟨h, rfl⟩
  rw [insertAt_eq_ok_iff.mpr ⟨h', rfl⟩] at e
  cases e
  rfl

/-- The value is found where it was inserted. -/
lemma getAt_self (h : Grows entries p v grown) : getAt grown p = some v := by
  induction h with
  | leaf => exact Entries.find?_bind_self _ _ _
  | branch _ grows ih =>
    rw [getAt_cons _ _ grows.ne_nil, Entries.find?_bind_self]
    exact ih

/-- Nothing changes at a place that is not on the way to the new value. -/
lemma getAt_of_not_prefix (grows : Grows entries p v grown) (leaf : v.IsLeaf) (aside : ¬ q <+: p) :
    getAt grown q = getAt entries q := by
  induction grows generalizing q with
  | @leaf entries segment v free =>
    rcases q with _ | ⟨first, rest⟩
    · exact absurd List.nil_prefix aside
    by_cases same : first = segment
    · -- what goes on behind the new leaf found nothing before either
      subst same
      have long : rest ≠ [] := by
        rintro rfl
        exact aside (List.prefix_refl _)
      rw [getAt_cons _ _ long, getAt_cons _ _ long, Entries.find?_bind_self, below?_leaf leaf,
        getAt_below?_of_no_branch rest free]
      rfl
    · by_cases short : rest = []
      · subst short
        rw [getAt, getAt, Entries.find?_bind_of_ne _ _ same]
      · rw [getAt_cons _ _ short, getAt_cons _ _ short, Entries.find?_bind_of_ne _ _ same]
  | @branch entries inner grown segment tail v slot grows ih =>
    rcases q with _ | ⟨first, rest⟩
    · exact absurd List.nil_prefix aside
    by_cases same : first = segment
    · subst same
      have beside : ¬ rest <+: tail := fun on => aside (List.cons_prefix_cons.mpr ⟨rfl, on⟩)
      have long : rest ≠ [] := by
        rintro rfl
        exact beside List.nil_prefix
      rw [getAt_cons _ _ long, getAt_cons _ _ long, Entries.find?_bind_self, slot]
      exact ih leaf beside
    · by_cases short : rest = []
      · subst short
        rw [getAt, getAt, Entries.find?_bind_of_ne _ _ same]
      · rw [getAt_cons _ _ short, getAt_cons _ _ short, Entries.find?_bind_of_ne _ _ same]

/-- On the way to the new value there are branches. -/
lemma getAt_of_prefix (grows : Grows entries p v grown) (on : q <+: p) (ne : q ≠ p)
    (some : q ≠ []) : ∃ inner, getAt grown q = .some (.mapping inner) := by
  induction grows generalizing q with
  | @leaf entries segment v free =>
    rcases List.prefix_cons_iff.mp on with rfl | ⟨rest, rfl, behind⟩
    · exact absurd rfl some
    · exact absurd (congrArg (segment :: ·) (List.prefix_nil.mp behind)) ne
  | @branch entries inner grown segment tail v slot grows ih =>
    rcases List.prefix_cons_iff.mp on with rfl | ⟨rest, rfl, behind⟩
    · exact absurd rfl some
    by_cases short : rest = []
    · subst short
      exact ⟨grown, Entries.find?_bind_self _ _ _⟩
    · rw [getAt_cons _ _ short, Entries.find?_bind_self]
      exact ih behind (fun e => ne (congrArg (segment :: ·) e)) short

/-- On the way to the new value no leaf was found. -/
lemma getAt_ne_leaf_of_prefix (grows : Grows entries p v grown) (on : q <+: p) (ne : q ≠ p)
    (leaf : x.IsLeaf) : getAt entries q ≠ some x := by
  induction grows generalizing q with
  | @leaf entries segment v free =>
    rcases List.prefix_cons_iff.mp on with rfl | ⟨rest, rfl, behind⟩
    · exact fun found => nomatch found
    · exact absurd (congrArg (segment :: ·) (List.prefix_nil.mp behind)) ne
  | @branch entries inner grown segment tail v slot grows ih =>
    rcases List.prefix_cons_iff.mp on with rfl | ⟨rest, rfl, behind⟩
    · exact fun found => nomatch found
    by_cases short : rest = []
    · subst short
      exact ne_leaf_of_below? slot leaf
    · rw [getAt_cons _ _ short, slot]
      exact ih behind fun e => ne (congrArg (segment :: ·) e)

/-- A leaf is found at another place after an insertion exactly if it was found there before. -/
lemma getAt_of_ne (h : Grows entries p v grown) (leafV : v.IsLeaf) (leafX : x.IsLeaf)
    (ne : q ≠ p) : getAt grown q = some x ↔ getAt entries q = some x := by
  by_cases on : q <+: p
  · constructor
    · intro found
      have some : q ≠ [] := by
        rintro rfl
        cases found
      obtain ⟨inner, branch⟩ := h.getAt_of_prefix on ne some
      rw [branch] at found
      cases found
      exact absurd rfl (leafX inner)
    · intro found
      exact absurd found (h.getAt_ne_leaf_of_prefix on ne leafX)
  · rw [h.getAt_of_not_prefix leafV on]

/-- An insertion can go through a branch just bound. -/
lemma branch_bound (entries : Entries) (segment : String) {inner : Entries} {rest : List String}
    (h : Grows inner rest v grown) :
    Grows (entries.bind segment (.mapping inner)) (segment :: rest) v
      ((entries.bind segment (.mapping inner)).bind segment (.mapping grown)) := by
  apply Grows.branch _ h
  rw [Entries.find?_bind_self]
  rfl

/-- An insertion can be made again, to no effect. -/
lemma again (h : Grows entries p v grown) (leafV : v.IsLeaf) : Grows grown p v grown := by
  induction h with
  | @leaf entries segment v free =>
    have twice : Grows (entries.bind segment v) [segment] v
        ((entries.bind segment v).bind segment v) := by
      apply Grows.leaf
      intro inner e
      rw [Entries.find?_bind_self] at e
      cases e
      exact leafV inner rfl
    rwa [Entries.bind_bind] at twice
  | @branch entries inner grown segment tail v slot grows ih =>
    have twice := branch_bound entries segment (ih leafV)
    rwa [Entries.bind_bind] at twice

/-- Where one value goes, every other one does. -/
lemma exists_grows (h : Grows entries p v grown) (w : Value) : ∃ grown', Grows entries p w grown' := by
  induction h with
  | leaf free => exact ⟨_, .leaf free⟩
  | branch slot _ ih =>
    obtain ⟨below, grows⟩ := ih
    exact ⟨_, .branch slot grows⟩

/-- The insertion of a leaf commutes with one at another place. -/
lemma comm {middle : Entries} (h : Grows entries p v middle) (h' : Grows middle q w grown)
    (leafV : v.IsLeaf) (ne : p ≠ q) :
    ∃ other, Grows entries q w other ∧ Grows other p v grown := by
  induction h generalizing q grown with
  | @leaf entries a v free =>
    cases h' with
    | @leaf _ b _ free' =>
      have other : a ≠ b := fun e => ne (by rw [e])
      rw [Entries.find?_bind_of_ne _ _ other.symm] at free'
      refine ⟨_, .leaf free', ?_⟩
      rw [Entries.bind_comm _ _ _ other]
      apply Grows.leaf
      rwa [Entries.find?_bind_of_ne _ _ other]
    | @branch _ inner _ b _ _ slot grows =>
      by_cases same : b = a
      · -- nothing goes below the leaf that has just been bound
        subst same
        rw [Entries.find?_bind_self, below?_leaf leafV] at slot
        cases slot
      · rw [Entries.find?_bind_of_ne _ _ same] at slot
        refine ⟨_, .branch slot grows, ?_⟩
        rw [Entries.bind_comm _ _ _ (Ne.symm same)]
        apply Grows.leaf
        rwa [Entries.find?_bind_of_ne _ _ (Ne.symm same)]
  | @branch entries inner grown₁ a rest v slot grows ih =>
    cases h' with
    | @leaf _ b _ free' =>
      by_cases same : b = a
      · subst same
        exact absurd (Entries.find?_bind_self _ _ _) (free' _)
      · rw [Entries.find?_bind_of_ne _ _ same] at free'
        refine ⟨_, .leaf free', ?_⟩
        rw [Entries.bind_comm _ _ _ (Ne.symm same)]
        apply Grows.branch _ grows
        rwa [Entries.find?_bind_of_ne _ _ (Ne.symm same)]
    | @branch _ inner' _ b tail _ slot' grows' =>
      by_cases same : b = a
      · -- both go below one slot, where they commute
        subst same
        rw [Entries.find?_bind_self] at slot'
        cases slot'
        have other : rest ≠ tail := fun e => ne (by rw [e])
        obtain ⟨between, first, second⟩ := ih grows' leafV other
        refine ⟨_, .branch slot first, ?_⟩
        have step := branch_bound entries b second
        rwa [Entries.bind_bind] at step ⊢
      · rw [Entries.find?_bind_of_ne _ _ same] at slot'
        refine ⟨_, .branch slot' grows', ?_⟩
        rw [Entries.bind_comm _ _ _ (Ne.symm same)]
        apply Grows.branch _ grows
        rwa [Entries.find?_bind_of_ne _ _ (Ne.symm same)]

end Grows

/-- A dotted key takes a value if none of its segments is empty and the insertion below them
succeeds; what was found at the key before gives way. -/
lemma insert_eq_ok_iff {tree grown : ValuesTree} {key : String} {value : Value}
    {previous : Option Value} :
    tree.insert key value = .ok (grown, previous) ↔
      "" ∉ keySegments key ∧ Grows tree.root (keySegments key) value grown.root ∧
        previous = tree.get? key := by
  rw [insert]
  by_cases empty : "" ∈ keySegments key
  · rw [if_pos (by simpa using empty)]
    constructor
    · intro h; cases h
    · rintro ⟨full, _⟩; exact absurd empty full
  · rw [if_neg (by simpa using empty)]
    cases inserted : insertAt tree.root (keySegments key) value with
    | error place =>
      constructor
      · intro h; cases h
      · rintro ⟨_, h⟩
        rw [insertAt_eq_ok_iff.mpr h] at inserted
        cases inserted
    | ok result =>
      obtain ⟨root, found⟩ := result
      obtain ⟨grows, rfl⟩ := insertAt_eq_ok_iff.mp inserted
      constructor
      · intro h; cases h; exact ⟨empty, grows, rfl⟩
      · rintro ⟨_, grows', rfl⟩
        cases grows.unique grows'
        rfl

variable {tree middle grown : ValuesTree} {key other : String} {v w x : Value}
  {previous previous' : Option Value}

/-- The value is found at the key it was inserted at. -/
lemma get?_insert_self (h : tree.insert key v = .ok (grown, previous)) : grown.get? key = some v :=
  (insert_eq_ok_iff.mp h).2.1.getAt_self

/-- A leaf is found at another key after an insertion exactly if it was found there before. -/
lemma get?_insert_of_ne (h : tree.insert key v = .ok (grown, previous)) (leafV : v.IsLeaf)
    (leafX : x.IsLeaf) (ne : other ≠ key) : grown.get? other = some x ↔ tree.get? other = some x :=
  (insert_eq_ok_iff.mp h).2.1.getAt_of_ne leafV leafX fun e => ne (keySegments_injective e)

/-- An insertion can be made again, to no effect. -/
lemma insert_again (h : tree.insert key v = .ok (grown, previous)) (leafV : v.IsLeaf) :
    grown.insert key v = .ok (grown, some v) := by
  obtain ⟨full, grows, _⟩ := insert_eq_ok_iff.mp h
  exact insert_eq_ok_iff.mpr ⟨full, grows.again leafV, (get?_insert_self h).symm⟩

/-- The insertion of a leaf commutes with one at another key. -/
lemma insert_comm (h : tree.insert key v = .ok (middle, previous))
    (h' : middle.insert other w = .ok (grown, previous')) (leafV : v.IsLeaf) (ne : key ≠ other) :
    ∃ between, tree.insert other w = .ok (between, tree.get? other) ∧
      between.insert key v = .ok (grown, between.get? key) := by
  obtain ⟨full, grows, _⟩ := insert_eq_ok_iff.mp h
  obtain ⟨full', grows', _⟩ := insert_eq_ok_iff.mp h'
  obtain ⟨root, first, second⟩ := grows.comm grows' leafV fun e => ne (keySegments_injective e)
  exact ⟨⟨root⟩, insert_eq_ok_iff.mpr ⟨full', first, rfl⟩,
    insert_eq_ok_iff.mpr ⟨full, second, rfl⟩⟩

/-- A key that takes a value takes every other one. -/
lemma exists_insert (h : tree.insert key v = .ok (grown, previous)) (w : Value) :
    ∃ result, tree.insert key w = .ok result := by
  obtain ⟨full, grows, _⟩ := insert_eq_ok_iff.mp h
  obtain ⟨root, grows⟩ := grows.exists_grows w
  exact ⟨(⟨root⟩, _), insert_eq_ok_iff.mpr ⟨full, grows, rfl⟩⟩

/-- A key that takes a value after the insertion of a leaf took it before. -/
lemma exists_insert_before (h : tree.insert key v = .ok (middle, previous)) (leafV : v.IsLeaf)
    (h' : middle.insert other w = .ok (grown, previous')) :
    ∃ result, tree.insert other w = .ok result := by
  by_cases same : key = other
  · subst same
    exact exists_insert h w
  · obtain ⟨between, before, -⟩ := insert_comm h h' leafV same
    exact ⟨_, before⟩

end ValuesTree

end ChartLift
