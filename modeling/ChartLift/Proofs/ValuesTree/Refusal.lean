import ChartLift.Proofs.ValuesTree.Growth

/-!
# Insertions that are refused

Insertion refuses a key with an empty segment, a key below a leaf and a key that is a branch, and no
other one. Done in place (`ValuesTree.insertInPlace`), with missing mappings made on the way down before
it is known whether the value can be taken, it comes to the same: where it fails, no mapping was missing
(`ValuesTree.insert_eq_error_iff`).
-/

namespace ChartLift

/-! ## Keys by their segments -/

lemma not_mem_of_mem_keySegments {key segment : String} (mem : segment ∈ keySegments key) :
    '.' ∉ segment.toList := by
  obtain ⟨part, cut, rfl⟩ := List.mem_map.mp mem
  rw [String.toList_ofList]
  exact Text.not_mem_of_mem_splitAt cut

/-- The first segments of a key, joined, are those of a key above it. -/
lemma keySegments_intercalate {key : String} {place : List String} (on : place <+: keySegments key)
    (some : place ≠ []) : keySegments (".".intercalate place) = place := by
  have whole : ∀ part ∈ place.map String.toList, '.' ∉ part := by
    intro part mem
    obtain ⟨segment, inside, rfl⟩ := List.mem_map.mp mem
    exact not_mem_of_mem_keySegments (on.subset inside)
  rw [keySegments, String.toList_intercalate]
  change (Text.splitAt '.' (['.'].intercalate (place.map String.toList))).map String.ofList = place
  rw [Text.splitAt_intercalate '.' whole (by simpa using some), List.map_map]
  simp [Function.comp_def]

lemma intercalate_keySegments (key : String) : ".".intercalate (keySegments key) = key :=
  keySegments_injective
    (keySegments_intercalate (List.prefix_refl _) (keySegments_ne_nil key))

namespace ValuesTree

variable {entries : Entries} {p q place : List String} {v x : Value}

/-! ## What blocks an insertion -/

/-- Nothing is found below a leaf. -/
lemma getAt_below_leaf (found : getAt entries p = some x) (leaf : x.IsLeaf) (on : p <+: q)
    (ne : p ≠ q) : getAt entries q = none := by
  induction p generalizing entries q with
  | nil => cases found
  | cons segment rest ih =>
    obtain ⟨behind, rfl⟩ : ∃ behind, q = segment :: (rest ++ behind) :=
      on.imp fun behind e => e.symm
    have longer : rest ≠ rest ++ behind := fun e => ne (congrArg (segment :: ·) e)
    by_cases short : rest = []
    · subst short
      rw [getAt] at found
      rw [getAt_cons _ _ longer.symm, found, below?_leaf leaf]
      rfl
    · rw [getAt_cons _ _ short] at found
      rw [getAt_cons _ _ (List.append_ne_nil_of_left_ne_nil short behind)]
      obtain ⟨inner, slot, found⟩ := Option.bind_eq_some_iff.mp found
      rw [slot]
      exact ih found (List.prefix_append rest behind) longer

/-- A slot that offers no entries to longer keys holds a leaf. -/
lemma exists_leaf_of_below? {slot : Option Value} (h : below? slot = none) :
    ∃ x, slot = some x ∧ x.IsLeaf := by
  cases slot with
  | none => cases h
  | some x =>
    refine ⟨x, rfl, ?_⟩
    rintro inner rfl
    cases h

/-- That a leaf on the way to a place, or a branch at it, keeps a value from being inserted there. -/
inductive Blocks (entries : Entries) (p : List String) : List String → Prop where
  | leaf {place : List String} {x : Value} :
    place <+: p →
    place ≠ p →
    getAt entries place = some x →
    x.IsLeaf →
    Blocks entries p place
  | branch {inner : Entries} :
    getAt entries p = some (.mapping inner) →
    Blocks entries p p

lemma blocks_singleton_iff {segment : String} :
    Blocks entries [segment] place ↔
      place = [segment] ∧ ∃ inner, entries.find? segment = some (.mapping inner) := by
  constructor
  · intro blocks
    cases blocks with
    | leaf on ne found _ =>
      rcases List.prefix_cons_iff.mp on with rfl | ⟨_, rfl, behind⟩
      · cases found
      · exact absurd (congrArg (segment :: ·) (List.prefix_nil.mp behind)) ne
    | branch found => exact ⟨rfl, _, found⟩
  · rintro ⟨rfl, inner, found⟩
    exact .branch found

/-- What blocks a longer way blocks it at the first slot or behind that. -/
lemma blocks_cons_iff {segment : String} {rest : List String} (long : rest ≠ []) :
    Blocks entries (segment :: rest) place ↔
      match below? (entries.find? segment) with
      | none => place = [segment]
      | some inner => ∃ behind, place = segment :: behind ∧ Blocks inner rest behind := by
  constructor
  · intro blocks
    cases blocks with
    | @leaf _ x on ne found leaf =>
      rcases List.prefix_cons_iff.mp on with rfl | ⟨behind, rfl, further⟩
      · cases found
      by_cases short : behind = []
      · subst short
        rw [getAt] at found
        rw [found, below?_leaf leaf]
      · rw [getAt_cons _ _ short] at found
        obtain ⟨inner, slot, found⟩ := Option.bind_eq_some_iff.mp found
        rw [slot]
        exact ⟨behind, rfl, .leaf further (fun e => ne (congrArg (segment :: ·) e)) found leaf⟩
    | branch found =>
      rw [getAt_cons _ _ long] at found
      obtain ⟨inner, slot, found⟩ := Option.bind_eq_some_iff.mp found
      rw [slot]
      exact ⟨rest, rfl, .branch found⟩
  · cases slot : below? (entries.find? segment) with
    | none =>
      rintro rfl
      obtain ⟨x, found, leaf⟩ := exists_leaf_of_below? slot
      exact .leaf (List.prefix_cons_iff.mpr (.inr ⟨[], rfl, List.nil_prefix⟩))
        (fun e => long (List.cons_inj_right segment |>.mp e).symm) found leaf
    | some inner =>
      rintro ⟨behind, rfl, blocks⟩
      cases blocks with
      | leaf further ne found leaf =>
        have some : behind ≠ [] := by
          rintro rfl
          cases found
        refine .leaf (List.cons_prefix_cons.mpr ⟨rfl, further⟩)
          (fun e => ne (List.cons_inj_right segment |>.mp e)) ?_ leaf
        rw [getAt_cons _ _ some, slot]
        exact found
      | branch found => exact .branch (by rw [getAt_cons _ _ long, slot]; exact found)

/-- Insertion below segments fails at what blocks it. -/
lemma insertAt_eq_error_iff (some : p ≠ []) :
    insertAt entries p v = .error place ↔ Blocks entries p place := by
  induction p generalizing entries place with
  | nil => exact absurd rfl some
  | cons segment rest ih =>
    by_cases short : rest = []
    · subst short
      rw [blocks_singleton_iff]
      by_cases branch : ∃ inner, entries.find? segment = .some (.mapping inner)
      · obtain ⟨inner, found⟩ := branch
        rw [insertAt_of_branch v found]
        constructor
        · rintro ⟨⟩
          exact ⟨rfl, inner, found⟩
        · rintro ⟨rfl, -⟩
          rfl
      · rw [insertAt_of_no_branch v (not_exists.mp branch)]
        constructor
        · rintro ⟨⟩
        · rintro ⟨-, found⟩
          exact absurd found branch
    · rw [insertAt_cons _ _ _ short, blocks_cons_iff short]
      cases below? (entries.find? segment) with
      | none =>
        constructor
        · rintro ⟨⟩
          rfl
        · rintro rfl
          rfl
      | some inner =>
        dsimp only
        constructor
        · intro fails
          split at fails
          · rename_i behind inserted
            cases fails
            exact ⟨behind, rfl, (ih short).mp inserted⟩
          · cases fails
        · rintro ⟨behind, rfl, blocks⟩
          rw [(ih short).mpr blocks]

/-! ## Insertion in place -/

/-- Entries in which a key is bound: where it was free, to an empty mapping. -/
def occupied (entries : Entries) (key : String) : Entries :=
  if (entries.find? key).isSome then entries else entries.bind key (.mapping [])

/-- Inserts a value below a list of segments in place. Mappings that are missing are made on the way
down; whether the value can be taken shows at the end of it. Tells what the entries are then, and the
leaf that was there or the segments up to the place of a conflict. -/
def insertInPlaceAt (entries : Entries) :
    List String → Value → Entries × Except (List String) (Option Value)
  | [], _ => (entries, .error [])
  | [leaf], value =>
    match entries.find? leaf with
    | some (.mapping _) => (entries, .error [leaf])
    | found => (entries.bind leaf value, .ok found)
  | segment :: rest, value =>
    let entries := occupied entries segment
    match entries.find? segment with
    | some (.mapping inner) =>
      let (inner, result) := insertInPlaceAt inner rest value
      (entries.bind segment (.mapping inner), result.mapError (segment :: ·))
    | _ => (entries, .error [segment])

/-- Inserts a value at a dotted key in place: the tree as it is then, and the leaf that was there. -/
def insertInPlace (tree : ValuesTree) (key : String) (value : Value) :
    ValuesTree × Except InsertFault (Option Value) :=
  let segments := keySegments key
  if segments.any (· == "") then (tree, .error (.invalidKey key))
  else
    match insertInPlaceAt tree.root segments value with
    | (root, .error place) => (⟨root⟩, .error (.conflict key (".".intercalate place)))
    | (root, .ok previous) => (⟨root⟩, .ok previous)

lemma insertInPlaceAt_cons (entries : Entries) (segment : String) {rest : List String} (v : Value)
    (long : rest ≠ []) :
    insertInPlaceAt entries (segment :: rest) v =
      match (occupied entries segment).find? segment with
      | some (.mapping inner) =>
        ((occupied entries segment).bind segment (.mapping (insertInPlaceAt inner rest v).1),
          (insertInPlaceAt inner rest v).2.mapError (segment :: ·))
      | _ => (occupied entries segment, .error [segment]) := by
  obtain ⟨next, rest, rfl⟩ := List.exists_cons_of_ne_nil long
  rw [insertInPlaceAt]
  exact fun e => nomatch e

/-- A mapping that has just been made blocks nothing. -/
lemma exists_insertAt_nil (some : p ≠ []) (v : Value) :
    ∃ grown, insertAt [] p v = .ok (grown, none) := by
  cases inserted : insertAt [] p v with
  | error place =>
    cases (insertAt_eq_error_iff some).mp inserted with
    | leaf _ _ found _ => rw [getAt_nil] at found; cases found
    | branch found => rw [getAt_nil] at found; cases found
  | ok result =>
    obtain ⟨grown, previous⟩ := result
    obtain ⟨-, rfl⟩ := insertAt_eq_ok_iff.mp inserted
    rw [getAt_nil]
    exact ⟨grown, rfl⟩

/-- Insertion in place leaves what insertion gives, and where that fails what there was. -/
lemma insertInPlaceAt_eq (ordered : (Value.mapping entries).Ordered) (p : List String) (v : Value) :
    insertInPlaceAt entries p v =
      match insertAt entries p v with
      | .error place => (entries, .error place)
      | .ok (grown, previous) => (grown, .ok previous) := by
  induction p generalizing entries with
  | nil => rfl
  | cons segment rest ih =>
    by_cases short : rest = []
    · subst short
      rw [insertInPlaceAt, insertAt]
      rcases entries.find? segment with _ | x
      · rfl
      · cases x <;> rfl
    rw [insertInPlaceAt_cons _ _ _ short, insertAt_cons _ _ _ short]
    cases found : entries.find? segment with
    | none =>
      -- what is made on the way down is grown to the end
      have made : occupied entries segment = entries.bind segment (.mapping []) := by
        simp [occupied, found]
      obtain ⟨grown, inserted⟩ := exists_insertAt_nil short v
      simp only [made, Entries.find?_bind_self, ih .empty, below?, inserted, Entries.bind_bind]
      rfl
    | some x =>
      have made : occupied entries segment = entries := by simp [occupied, found]
      rw [made, found]
      by_cases leaf : x.IsLeaf
      · rw [below?_leaf leaf]
        cases x with
        | mapping inner => exact absurd rfl (leaf inner)
        | _ => rfl
      · obtain ⟨inner, rfl⟩ : ∃ inner, x = .mapping inner := by simpa [Value.IsLeaf] using leaf
        simp only [ih (ordered.find? found), below?]
        cases insertAt inner rest v with
        | error place =>
          rw [(Value.ordered_mapping_iff.mp ordered).1.bind_of_find? found]
          rfl
        | ok result => rfl

variable {tree : ValuesTree} {key : String} {value : Value}

lemma insertInPlace_eq (ordered : tree.Ordered) (key : String) (value : Value) :
    tree.insertInPlace key value =
      match tree.insert key value with
      | .error fault => (tree, .error fault)
      | .ok (grown, previous) => (grown, .ok previous) := by
  rw [insertInPlace, insert]
  split
  · rfl
  · rw [insertInPlaceAt_eq ordered]
    cases insertAt tree.root (keySegments key) value <;> rfl

/-- That a key cannot take a value: it has an empty segment, a leaf stands above it, of which the
place is told that is nearest to the root, or it is a branch. -/
inductive Refuses (tree : ValuesTree) (key : String) : InsertFault → Prop where
  | invalid :
    "" ∈ keySegments key →
    Refuses tree key (.invalidKey key)
  | leaf {place : String} {x : Value} :
    "" ∉ keySegments key →
    Above place key →
    tree.get? place = some x →
    x.IsLeaf →
    (∀ other y, Above other key → tree.get? other = some y → y.IsLeaf →
      (keySegments place).length ≤ (keySegments other).length) →
    Refuses tree key (.conflict key place)
  | branch {inner : Entries} :
    "" ∉ keySegments key →
    tree.get? key = some (.mapping inner) →
    Refuses tree key (.conflict key key)

/-- What blocks the way of a key is told by the key of its place. -/
lemma refuses_conflict_iff {place : String} (valid : "" ∉ keySegments key) :
    tree.Refuses key (.conflict key place) ↔
      ∃ p, Blocks tree.root (keySegments key) p ∧ ".".intercalate p = place := by
  constructor
  · intro refuses
    cases refuses with
    | leaf _ above found leaf _ =>
      refine ⟨_, .leaf above.1 (fun e => above.2 (keySegments_injective e)) found leaf, ?_⟩
      exact intercalate_keySegments place
    | branch _ found => exact ⟨_, .branch found, intercalate_keySegments key⟩
  · rintro ⟨p, blocks, rfl⟩
    cases blocks with
    | @leaf _ x on ne found leaf =>
      have some : p ≠ [] := by
        rintro rfl
        cases found
      have same := keySegments_intercalate on some
      refine .leaf valid ⟨same.symm ▸ on, fun e => ne (by rw [← same, e])⟩
        (by rw [get?, same]; exact found) leaf fun other y above there leafY => ?_
      rw [same]
      -- a leaf nearer to the root would have nothing below it
      rcases List.prefix_or_prefix_of_prefix on above.1 with further | nearer
      · exact further.length_le
      · by_cases here : keySegments other = p
        · rw [here]
        · rw [getAt_below_leaf there leafY nearer here] at found
          cases found
    | branch found =>
      rw [intercalate_keySegments]
      exact .branch valid found

lemma insert_eq_error_iff_refuses {fault : InsertFault} :
    tree.insert key value = .error fault ↔ tree.Refuses key fault := by
  rw [insert]
  by_cases empty : "" ∈ keySegments key
  · rw [if_pos (by simpa using empty)]
    constructor
    · rintro ⟨⟩
      exact .invalid empty
    · intro refuses
      cases refuses with
      | invalid => rfl
      | leaf valid => exact absurd empty valid
      | branch valid => exact absurd empty valid
  · rw [if_neg (by simpa using empty)]
    have blocked (place : List String) : insertAt tree.root (keySegments key) value = .error place ↔
        Blocks tree.root (keySegments key) place :=
      insertAt_eq_error_iff (keySegments_ne_nil key)
    constructor
    · intro fails
      split at fails
      · rename_i place inserted
        cases fails
        exact (refuses_conflict_iff empty).mpr ⟨place, (blocked place).mp inserted, rfl⟩
      · cases fails
    · intro refuses
      cases fault with
      | invalidKey other => cases refuses with | invalid mem => exact absurd mem empty
      | conflict other place =>
        obtain rfl : other = key := by cases refuses <;> rfl
        obtain ⟨p, blocks, rfl⟩ := (refuses_conflict_iff empty).mp refuses
        rw [(blocked p).mpr blocks]

/-- Insertion fails with what refuses the key, and done in place it then leaves the tree as it was, with
no mapping made; where it succeeds, both come to the same. -/
theorem insert_eq_error_iff (ordered : tree.Ordered) (key : String) (value : Value) :
    (∀ fault, tree.insert key value = .error fault ↔ tree.Refuses key fault) ∧
      (∀ after fault, tree.insertInPlace key value = (after, .error fault) ↔
        tree.insert key value = .error fault ∧ after = tree) ∧
      ∀ after previous, tree.insertInPlace key value = (after, .ok previous) ↔
        tree.insert key value = .ok (after, previous) := by
  refine ⟨fun fault => insert_eq_error_iff_refuses, fun after fault => ?_, fun after previous => ?_⟩
  · rw [insertInPlace_eq ordered]
    cases tree.insert key value with
    | error found => simp [and_comm, eq_comm]
    | ok result => simp
  · rw [insertInPlace_eq ordered]
    cases tree.insert key value with
    | error found => simp
    | ok result => simp [Prod.ext_iff]

/-- A key two steps below a leaf is refused at the leaf, and the tree stays as it is. -/
theorem insert_eq_error_iff_below_leaf :
    seeded.Ordered ∧
      seeded.insert "a.b.x.y" (.string "1") = .error (.conflict "a.b.x.y" "a.b") ∧
      seeded.Refuses "a.b.x.y" (.conflict "a.b.x.y" "a.b") ∧
      seeded.insertInPlace "a.b.x.y" (.string "1") = (seeded, .error (.conflict "a.b.x.y" "a.b")) := by
  have fails : seeded.insert "a.b.x.y" (.string "1") = .error (.conflict "a.b.x.y" "a.b") := by rfl
  obtain ⟨refuses, inPlace, -⟩ := insert_eq_error_iff ordered_seeded "a.b.x.y" (.string "1")
  exact ⟨ordered_seeded, fails, (refuses _).mp fails, (inPlace _ _).mpr ⟨fails, rfl⟩⟩

/-- A key at which a leaf is found takes every value, if it has no empty segment. -/
lemma exists_insert_of_leaf (valid : "" ∉ keySegments key) (found : tree.get? key = some x)
    (leaf : x.IsLeaf) (value : Value) : ∃ grown, tree.insert key value = .ok (grown, some x) := by
  cases inserted : tree.insert key value with
  | error fault =>
    cases insert_eq_error_iff_refuses.mp inserted with
    | invalid empty => exact absurd empty valid
    | leaf _ above there leafY _ =>
      rw [get?, getAt_below_leaf there leafY above.1 fun e => above.2 (keySegments_injective e)] at found
      cases found
    | branch _ there =>
      rw [there] at found
      cases found
      exact absurd rfl (leaf _)
  | ok result =>
    obtain ⟨grown, previous⟩ := result
    obtain ⟨-, -, rfl⟩ := insert_eq_ok_iff.mp inserted
    exact ⟨grown, by rw [found]⟩

end ValuesTree

end ChartLift
