import ChartLift.Proofs.Yaml.Layout
import ChartLift.Rewrite.Walk

/-!
# Reached entries

The entries of a tree by the steps that lead to them, with the collections around them (`Reached`).
The walk visits these entries, each at its steps and with the flag of its own mapping
(`mem_walk_iff`). Visits to items stand at positions, those to entries and values at fields
(`Visit.Fits`), so that no place is that of an item and of an entry.
-/

namespace ChartLift.Yaml.Layout

/-- A property of nodes that passes from the parts of each collection to the collection. -/
lemma Node.induct {P : Node → Prop} (scalar : ∀ span text, P (.scalar span text))
    (aliased : ∀ span, P (.alias span))
    (sequence : ∀ span flow items, (∀ item ∈ items, P item) → P (.sequence span flow items))
    (mapping : ∀ span flow entries, (∀ entry ∈ entries, P entry.value) →
      P (.mapping span flow entries)) (node : Node) : P node :=
  match node with
  | .scalar span text => scalar span text
  | .alias span => aliased span
  | .sequence span flow items =>
    sequence span flow items fun item _ => induct scalar aliased sequence mapping item
  | .mapping span flow entries =>
    mapping span flow entries fun entry mem =>
      -- a value is a part of its entry, and that one of the mapping
      have : sizeOf entry.value < sizeOf entry := by cases entry; simp +arith
      have : sizeOf entry < sizeOf entries := List.sizeOf_lt_of_mem mem
      induct scalar aliased sequence mapping entry.value

end ChartLift.Yaml.Layout

namespace ChartLift.Rewrite

open Yaml.Layout (Node Entry Tree)

/-! ## Visits -/

section Visits

variable {place : Path} {flow : Bool} {visit : Visit}

/-- The visits to items and below them, item by item. -/
lemma mem_belowItems_iff {items : List Node} {position : Nat} :
    visit ∈ belowItems place flow position items ↔ ∃ (n : Nat) (item : Node), items[n]? = some item ∧
      (visit = ⟨place.child (.index (position + n : Nat)), .item item flow⟩ ∨
        visit ∈ below (place.child (.index (position + n : Nat))) item) := by
  induction items generalizing position with
  | nil => simp [belowItems]
  | cons item rest ih =>
    rw [belowItems, List.mem_cons, List.mem_append, ih]
    constructor
    · rintro (here | inside | ⟨n, item', there, at'⟩)
      · exact ⟨0, item, rfl, .inl here⟩
      · exact ⟨0, item, rfl, .inr inside⟩
      · rw [Nat.add_right_comm, Nat.add_assoc] at at'
        exact ⟨n + 1, item', there, at'⟩
    · rintro ⟨n, item', there, at'⟩
      cases n with
      | zero =>
        cases there
        exact at'.imp_right .inl
      | succ n =>
        rw [← Nat.add_assoc, Nat.add_right_comm] at at'
        exact .inr (.inr ⟨n, item', there, at'⟩)

/-- The visits to entries and below them, entry by entry; an entry whose key is no scalar has none.
-/
lemma mem_belowEntries_iff {entries : List Entry} :
    visit ∈ belowEntries place flow entries ↔ ∃ entry ∈ entries, ∃ key, entry.key = some key ∧
      (visit = ⟨place.child (.field key), .entry entry flow⟩ ∨
        visit = ⟨place.child (.field key), .value entry.value⟩ ∨
        visit ∈ below (place.child (.field key)) entry.value) := by
  induction entries with
  | nil => simp [belowEntries]
  | cons entry rest ih =>
    obtain ⟨key, keySpan, indicator, value⟩ := entry
    cases key with
    | none => simp [belowEntries, ih]
    | some key => simp [belowEntries, ih, or_assoc]

/-- That the last step to a place tells what is visited there. -/
def Visit.Fits (visit : Visit) : Prop :=
  match visit.visited with
  | .root _ => visit.path = .root
  | .item _ _ => ∃ position, visit.path.last? = some (.index position)
  | .entry _ _ | .value _ => ∃ name, visit.path.last? = some (.field name)

lemma last?_child (place : Path) (segment : Segment) : (place.child segment).last? = some segment :=
  List.getLast?_concat

/-- Below a node items stand at positions, entries and values at fields. -/
lemma fits_of_mem_below {node : Node} (mem : visit ∈ below place node) : visit.Fits := by
  induction node using Node.induct generalizing place with
  | scalar => rw [below] at mem; cases mem
  | aliased => rw [below] at mem; cases mem
  | sequence span flow items ih =>
    rw [below, mem_belowItems_iff] at mem
    obtain ⟨n, item, there, rfl | inside⟩ := mem
    · exact ⟨_, last?_child _ _⟩
    · exact ih item (List.mem_of_getElem? there) inside
  | mapping span flow entries ih =>
    rw [below, mem_belowEntries_iff] at mem
    obtain ⟨entry, mem, key, named, rfl | rfl | inside⟩ := mem
    · exact ⟨key, last?_child _ _⟩
    · exact ⟨key, last?_child _ _⟩
    · exact ih entry mem inside

/-- In a tree items stand at positions, entries and values at fields. -/
lemma fits_of_mem_walk {tree : Tree} (mem : visit ∈ walk tree) : visit.Fits := by
  rw [walk] at mem
  cases rooted : tree.root with
  | none => rw [rooted] at mem; cases mem
  | some root =>
    rw [rooted] at mem
    rcases List.mem_cons.mp mem with rfl | mem
    · rfl
    · exact fits_of_mem_below mem

end Visits

/-! ## Reached entries -/

/-- An entry that steps lead to from a node, with the mapping that holds it and the collections
around that mapping, the innermost first. -/
inductive Reached : Node → List Segment → Node → List Node → Entry → Prop where
  | entry {span flow} {entries : List Entry} {entry : Entry} {key} :
    entry ∈ entries →
    entry.key = some key →
    Reached (.mapping span flow entries) [.field key] (.mapping span flow entries) [] entry
  | value {span flow} {entries : List Entry} {outer : Entry} {key segments mapping around entry} :
    outer ∈ entries →
    outer.key = some key →
    Reached outer.value segments mapping around entry →
    Reached (.mapping span flow entries) (.field key :: segments) mapping
      (around ++ [.mapping span flow entries]) entry
  | item {span flow} {items : List Node} {position : Nat} {item segments mapping around entry} :
    items[position]? = some item →
    Reached item segments mapping around entry →
    Reached (.sequence span flow items) (.index position :: segments) mapping
      (around ++ [.sequence span flow items]) entry

section Reached

variable {node mapping : Node} {segments : List Segment} {around : List Node} {entry : Entry}

/-- A reached entry stands in its mapping, which is a mapping. -/
lemma Reached.mem (h : Reached node segments mapping around entry) :
    ∃ span flow entries, mapping = .mapping span flow entries ∧ entry ∈ entries := by
  induction h with
  | entry mem => exact ⟨_, _, _, rfl, mem⟩
  | value _ _ _ ih => exact ih
  | item _ _ ih => exact ih

/-- The last step to a reached entry is its key. -/
lemma Reached.getLast? (h : Reached node segments mapping around entry) :
    ∃ key, entry.key = some key ∧ segments.getLast? = some (.field key) := by
  induction h with
  | @entry _ _ _ _ key _ named => exact ⟨key, named, rfl⟩
  | value _ _ _ ih =>
    obtain ⟨key, named, last⟩ := ih
    refine ⟨key, named, ?_⟩
    rw [List.getLast?_cons, last]
    rfl
  | item _ _ ih =>
    obtain ⟨key, named, last⟩ := ih
    refine ⟨key, named, ?_⟩
    rw [List.getLast?_cons, last]
    rfl

lemma not_reached_nil : ¬ Reached node [] mapping around entry := by
  intro h
  obtain ⟨key, -, last⟩ := h.getLast?
  cases last

/-- The flag of a collection; other nodes have none. -/
def flowOf : Node → Bool
  | .sequence _ flow _ => flow
  | .mapping _ flow _ => flow
  | .scalar _ _ | .alias _ => false

/-- Below a node those entries are visited that steps lead to. -/
lemma mem_below_iff {place path : Path} {flow : Bool} :
    ⟨path, .entry entry flow⟩ ∈ below place node ↔ ∃ segments mapping around,
      path.segments = place.segments ++ segments ∧
        Reached node segments mapping around entry ∧ flowOf mapping = flow := by
  induction node using Node.induct generalizing place with
  | scalar =>
    rw [below]
    constructor
    · rintro ⟨⟩
    · rintro ⟨_, _, _, _, ⟨⟩, _⟩
  | aliased =>
    rw [below]
    constructor
    · rintro ⟨⟩
    · rintro ⟨_, _, _, _, ⟨⟩, _⟩
  | sequence span bracketed items ih =>
    rw [below, mem_belowItems_iff]
    constructor
    · rintro ⟨n, item, there, here | inside⟩
      · cases here
      · obtain ⟨segments, mapping, around, along, reached, flag⟩ :=
          (ih item (List.mem_of_getElem? there)).mp inside
        rw [Nat.zero_add, Path.child, List.append_assoc] at along
        exact ⟨_, mapping, _, along, .item there reached, flag⟩
    · rintro ⟨_, mapping, _, along, reached, flag⟩
      cases reached with
      | @item _ _ _ n item segments _ around _ there reached =>
        refine ⟨n, item, there, .inr ((ih item (List.mem_of_getElem? there)).mpr
          ⟨segments, mapping, around, ?_, reached, flag⟩)⟩
        rw [Nat.zero_add, Path.child, List.append_assoc]
        exact along
  | mapping span braced entries ih =>
    rw [below, mem_belowEntries_iff]
    constructor
    · rintro ⟨outer, mem, key, named, here | here | inside⟩
      · cases here
        exact ⟨_, _, _, rfl, .entry mem named, rfl⟩
      · cases here
      · obtain ⟨segments, mapping, around, along, reached, flag⟩ := (ih outer mem).mp inside
        rw [Path.child, List.append_assoc] at along
        exact ⟨_, mapping, _, along, .value mem named reached, flag⟩
    · rintro ⟨_, mapping, _, along, reached, flag⟩
      cases reached with
      | @entry _ _ _ _ key mem named =>
        obtain ⟨steps⟩ := path
        cases along
        cases flag
        exact ⟨entry, mem, key, named, .inl rfl⟩
      | @value _ _ _ outer key segments _ around _ mem named reached =>
        refine ⟨outer, mem, key, named, .inr (.inr ((ih outer mem).mpr
          ⟨segments, mapping, around, ?_, reached, flag⟩))⟩
        rw [Path.child, List.append_assoc]
        exact along

/-- An entry that the steps of a path lead to in a tree, with its mapping and the collections around
that. -/
def Reaches (tree : Tree) (path : Path) (mapping : Node) (around : List Node) (entry : Entry) :
    Prop :=
  ∃ root, tree.root = some root ∧ Reached root path.segments mapping around entry

/-- In a tree those entries are visited that the steps of a path lead to. -/
lemma mem_walk_iff {tree : Tree} {path : Path} {flow : Bool} :
    ⟨path, .entry entry flow⟩ ∈ walk tree ↔
      ∃ mapping around, Reaches tree path mapping around entry ∧ flowOf mapping = flow := by
  simp only [walk, Reaches]
  cases tree.root with
  | none => simp
  | some root =>
    rw [List.mem_cons, mem_below_iff]
    constructor
    · rintro (here | ⟨segments, mapping, around, along, reached, flag⟩)
      · cases here
      · obtain rfl : path.segments = segments := along
        exact ⟨mapping, around, ⟨root, rfl, reached⟩, flag⟩
    · rintro ⟨mapping, around, ⟨_, ⟨⟩, reached⟩, flag⟩
      exact .inr ⟨_, mapping, around, rfl, reached, flag⟩

end Reached

end ChartLift.Rewrite
