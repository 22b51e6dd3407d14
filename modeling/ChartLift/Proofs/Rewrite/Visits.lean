import ChartLift.Proofs.Rewrite.Collector
import ChartLift.Proofs.Rewrite.Located

/-!
# Visits in the order of the document

Every root, entry, value and item of a tree has an address (`Holds`): the positions of the entries and
items on the way to it, where the value of an entry stands at position 0 behind the entry. In the
lexicographic order of addresses a collection comes before its parts, these in the order of the
document, and an entry before its value. The walk visits each address once and in this order, but for
those of entries with complex keys and all below them. It hands over the keys and positions on the way,
and two places get the same path only as an entry and its value or by way of entries of one mapping with
equal keys (`Covers`, `walk_visits`).
-/

namespace ChartLift.Rewrite

open Yaml.Layout (Node Entry EntryOf Tree)

/-! ## Addresses -/

/-- That an address leads from one thing in a tree to another. The steps on the way are the keys of
entries and the positions of items; a complex key is none. -/
inductive Under : Visited → List Nat → List (Option Segment) → Visited → Prop where
  | here {visited} :
    Under visited [] [] visited
  | item {visited span flow} {items : List Node} {n : Nat} {item address steps target} :
    visited.node? = some (.sequence span flow items) →
    items[n]? = some item →
    Under (.item item flow) address steps target →
    Under visited (n :: address) (some (.index n) :: steps) target
  | entry {visited span flow} {entries : List Entry} {n : Nat} {entry : Entry}
      {address steps target} :
    visited.node? = some (.mapping span flow entries) →
    entries[n]? = some entry →
    Under (.entry entry flow) address steps target →
    Under visited (n :: address) (entry.key.map .field :: steps) target
  | value {entry flow address steps target} :
    Under (.value entry.value) address steps target →
    Under (.entry entry flow) (0 :: address) steps target

/-- What a tree holds at an address, and the steps to it. -/
def Holds (tree : Tree) (address : List Nat) (steps : List (Option Segment)) (visited : Visited) :
    Prop :=
  ∃ root, tree.root = some root ∧ Under (.root root) address steps visited

/-- That two addresses part at a mapping, and lead on through two of its entries with equal keys. -/
def PartAtKey (origin : Visited) (address address' : List Nat) : Prop :=
  ∃ front n m steps visited span flow entries entry entry' key, n < m ∧
    front ++ [n] <+: address ∧ front ++ [m] <+: address' ∧
    Under origin front steps visited ∧ visited.node? = some (.mapping span flow entries) ∧
    entries[n]? = some entry ∧ entries[m]? = some entry' ∧
    entry.key = some key ∧ entry'.key = some key

/-- That visits, each with its address, are those to all that a tree holds without a complex key on the
way. -/
structure Covers (tree : Tree) (visits : List (List Nat × Visit)) : Prop where
  /-- They are in the order of their addresses, each of which is visited once. -/
  ordered : visits.Pairwise fun a b => a.1 < b.1
  /-- The path of a visit is that of the keys and positions on the way. -/
  held : ∀ {address path visited}, (address, ⟨path, visited⟩) ∈ visits ↔
    Holds tree address (path.segments.map some) visited
  /-- Nothing is visited at a complex key or below one. -/
  skipped : ∀ {address steps visited}, Holds tree address steps visited → none ∈ steps →
    ∀ visit, (address, visit) ∉ visits
  /-- The same path is met twice only with an entry and its value, or by way of equal keys. -/
  apart : ∀ {address address' path visited visited'}, (address, ⟨path, visited⟩) ∈ visits →
    (address', ⟨path, visited'⟩) ∈ visits → address < address' →
    (∃ entry flow, visited = .entry entry flow ∧ visited' = .value entry.value ∧
      address' = address ++ [0]) ∨
      ∃ root, tree.root = some root ∧ PartAtKey (.root root) address address'

section Addresses

variable {visited target : Visited} {n : Nat} {address : List Nat} {steps : List (Option Segment)}
  {span : Yaml.Layout.Span} {flow : Bool}

lemma Under.eq_of_nil (under : Under visited [] steps target) : steps = [] ∧ target = visited := by
  cases under with
  | here => exact ⟨rfl, rfl⟩

/-- Below a sequence an address goes on from the item at its first position. -/
lemma Under.of_sequence {items : List Node} (under : Under visited (n :: address) steps target)
    (is : visited.node? = some (.sequence span flow items)) :
    ∃ item later, items[n]? = some item ∧ steps = some (.index n) :: later ∧
      Under (.item item flow) address later target := by
  cases under with
  | item is' there inside =>
    cases is.symm.trans is'
    exact ⟨_, _, there, rfl, inside⟩
  | entry is' => cases is.symm.trans is'
  | value => cases is

/-- Below a mapping it goes on from the entry at its first position. -/
lemma Under.of_mapping {entries : List Entry} (under : Under visited (n :: address) steps target)
    (is : visited.node? = some (.mapping span flow entries)) :
    ∃ entry later, entries[n]? = some entry ∧ steps = entry.key.map .field :: later ∧
      Under (.entry entry flow) address later target := by
  cases under with
  | item is' => cases is.symm.trans is'
  | entry is' there inside =>
    cases is.symm.trans is'
    exact ⟨_, _, there, rfl, inside⟩
  | value => cases is

/-- Below an entry it goes on from its value, which takes no step. -/
lemma Under.of_entry {entry : Entry} (under : Under (.entry entry flow) (n :: address) steps target) :
    n = 0 ∧ Under (.value entry.value) address steps target := by
  cases under with
  | item is => cases is
  | entry is => cases is
  | value inside => exact ⟨rfl, inside⟩

/-- Nothing is below a node without parts. -/
lemma Under.not_leaf {node : Node} (under : Under visited (n :: address) steps target)
    (is : visited.node? = some node) (sequence : ∀ span flow items, node ≠ .sequence span flow items)
    (mapping : ∀ span flow entries, node ≠ .mapping span flow entries) : False := by
  cases under with
  | item is' =>
    cases is.symm.trans is'
    exact sequence _ _ _ rfl
  | entry is' =>
    cases is.symm.trans is'
    exact mapping _ _ _ rfl
  | value => cases is

/-- An address leads to one thing, by one way. -/
lemma Under.unique {target' : Visited} {steps' : List (Option Segment)}
    (under : Under visited address steps target) (under' : Under visited address steps' target') :
    steps = steps' ∧ target = target' := by
  induction under generalizing steps' with
  | here =>
    obtain ⟨rfl, rfl⟩ := under'.eq_of_nil
    exact ⟨rfl, rfl⟩
  | item is there _ ih =>
    obtain ⟨item, later, there', rfl, inside⟩ := under'.of_sequence is
    cases there.symm.trans there'
    exact (ih inside).imp_left (congrArg _)
  | entry is there _ ih =>
    obtain ⟨entry, later, there', rfl, inside⟩ := under'.of_mapping is
    cases there.symm.trans there'
    exact (ih inside).imp_left (congrArg _)
  | value _ ih =>
    obtain ⟨-, inside⟩ := under'.of_entry
    exact ih inside

/-- Addresses below a part of something that part at a mapping do so below the whole. -/
lemma PartAtKey.cons {part : Visited} {address' : List Nat} (parts : PartAtKey part address address')
    (step : ∀ front steps target, Under part front steps target →
      ∃ steps', Under visited (n :: front) steps' target) :
    PartAtKey visited (n :: address) (n :: address') := by
  obtain ⟨front, k, m, steps, at_, span, flow, entries, entry, entry', key, lt, ⟨back, rfl⟩,
    ⟨back', rfl⟩, under, rest⟩ := parts
  obtain ⟨steps', under'⟩ := step front steps at_ under
  exact ⟨n :: front, k, m, steps', at_, span, flow, entries, entry, entry', key, lt, ⟨back, rfl⟩,
    ⟨back', rfl⟩, under', rest⟩

/-- Two addresses with the same steps lead to an entry and its value, or part at equal keys. -/
lemma Under.coincide {target' : Visited} {address' : List Nat} (solid : none ∉ steps)
    (under : Under visited address steps target) (under' : Under visited address' steps target')
    (lt : address < address') :
    (∃ entry flow, target = .entry entry flow ∧ target' = .value entry.value ∧
      address' = address ++ [0]) ∨ PartAtKey visited address address' := by
  induction under generalizing address' with
  | here =>
    cases under' with
    | here => exact absurd lt (List.lt_irrefl _)
    | value inside =>
      cases inside with
      | here => exact .inl ⟨_, _, rfl, rfl, rfl⟩
  | @item _ _ _ _ n _ address _ _ is there _ ih =>
    cases address' with
    | nil => exact absurd lt (List.not_lt_nil _)
    | cons m address' =>
      obtain ⟨item, later, there', eq, inside⟩ := under'.of_sequence is
      obtain ⟨same, rfl⟩ := List.cons.inj eq
      obtain rfl : n = m := Int.ofNat.inj (Segment.index.inj (Option.some.inj same))
      cases there.symm.trans there'
      have deeper : address < address' := by simpa using lt
      rcases ih (fun mem => solid (List.mem_cons_of_mem _ mem)) inside deeper with
        ⟨entry, flow, rfl, rfl, rfl⟩ | parts
      · exact .inl ⟨entry, flow, rfl, rfl, rfl⟩
      · exact .inr (parts.cons fun _ _ _ under => ⟨_, .item is there under⟩)
  | @entry _ _ _ _ n entry address _ _ is there _ ih =>
    cases address' with
    | nil => exact absurd lt (List.not_lt_nil _)
    | cons m address' =>
      obtain ⟨entry', later, there', eq, inside⟩ := under'.of_mapping is
      obtain ⟨same, rfl⟩ := List.cons.inj eq
      rcases List.cons_lt_cons_iff.mp lt with earlier | ⟨rfl, deeper⟩
      · -- the way parts here
        obtain ⟨key, named⟩ : ∃ key, entry.key = some key := by
          cases named : entry.key with
          | none => exact absurd (by simp [named]) solid
          | some key => exact ⟨key, rfl⟩
        have named' : entry'.key = some key := by
          rw [named] at same
          obtain ⟨key', named', ⟨⟩⟩ := Option.map_eq_some_iff.mp same.symm
          exact named'
        exact .inr ⟨[], n, m, [], _, _, _, _, entry, entry', key, earlier, ⟨address, rfl⟩,
          ⟨address', rfl⟩, .here, is, there, there', named, named'⟩
      · cases there.symm.trans there'
        rcases ih (fun mem => solid (List.mem_cons_of_mem _ mem)) inside deeper with
          ⟨entry, flow, rfl, rfl, rfl⟩ | parts
        · exact .inl ⟨entry, flow, rfl, rfl, rfl⟩
        · exact .inr (parts.cons fun _ _ _ under => ⟨_, .entry is there under⟩)
  | @value _ _ address _ _ _ ih =>
    cases address' with
    | nil => exact absurd lt (List.not_lt_nil _)
    | cons m address' =>
      obtain ⟨rfl, inside⟩ := under'.of_entry
      have deeper : address < address' := by simpa using lt
      rcases ih solid inside deeper with ⟨entry, flow, rfl, rfl, rfl⟩ | parts
      · exact .inl ⟨entry, flow, rfl, rfl, rfl⟩
      · exact .inr (parts.cons fun _ _ _ under => ⟨_, .value under⟩)

end Addresses

/-! ## Visits at addresses -/

/-- An address and a visit, seen from one position further up. -/
def down (n : Nat) (placed : List Nat × Visit) : List Nat × Visit :=
  (n :: placed.1, placed.2)

mutual

/-- The visits below a node, each with its address. -/
def placedBelow (place : Path) : Node → List (List Nat × Visit)
  | .scalar _ _ => []
  | .alias _ => []
  | .sequence _ flow items => placedItems place flow 0 items
  | .mapping _ flow entries => placedEntries place flow 0 entries

/-- The visits to items and below them, the first of them having a position. -/
def placedItems (place : Path) (flow : Bool) (position : Nat) :
    List Node → List (List Nat × Visit)
  | [] => []
  | item :: rest =>
    let here := place.child (.index position)
    (([], ⟨here, .item item flow⟩) :: placedBelow here item).map (down position) ++
      placedItems place flow (position + 1) rest

/-- The visits to entries and below them, the first of them having a position. -/
def placedEntries (place : Path) (flow : Bool) (position : Nat) :
    List (EntryOf Node) → List (List Nat × Visit)
  | [] => []
  | ⟨none, _, _, _⟩ :: rest => placedEntries place flow (position + 1) rest
  | ⟨some key, keySpan, indicator, value⟩ :: rest =>
    let here := place.child (.field key)
    (([], ⟨here, .entry ⟨some key, keySpan, indicator, value⟩ flow⟩) ::
      (([], ⟨here, .value value⟩) :: placedBelow here value).map (down 0)).map (down position) ++
        placedEntries place flow (position + 1) rest

end

/-- The visits to a tree, each with its address. -/
def placed (tree : Tree) : List (List Nat × Visit) :=
  match tree.root with
  | none => []
  | some root => ([], ⟨.root, .root root⟩) :: placedBelow .root root

lemma map_snd_down (n : Nat) (visits : List (List Nat × Visit)) :
    (visits.map (down n)).map Prod.snd = visits.map Prod.snd := by
  rw [List.map_map]
  rfl

mutual

/-- Without their addresses they are the visits of the walk. -/
lemma map_snd_placedBelow (place : Path) (node : Node) :
    (placedBelow place node).map Prod.snd = below place node :=
  match node with
  | .scalar _ _ => rfl
  | .alias _ => rfl
  | .sequence _ flow items => map_snd_placedItems place flow 0 items
  | .mapping _ flow entries => map_snd_placedEntries place flow 0 entries

lemma map_snd_placedItems (place : Path) (flow : Bool) (position : Nat) (items : List Node) :
    (placedItems place flow position items).map Prod.snd = belowItems place flow position items :=
  match items with
  | [] => rfl
  | item :: rest => by
    rw [placedItems, belowItems, List.map_append, map_snd_down, List.map_cons,
      map_snd_placedBelow _ item, map_snd_placedItems place flow (position + 1) rest,
      List.cons_append]

lemma map_snd_placedEntries (place : Path) (flow : Bool) (position : Nat)
    (entries : List (EntryOf Node)) :
    (placedEntries place flow position entries).map Prod.snd = belowEntries place flow entries :=
  match entries with
  | [] => rfl
  | ⟨none, _, _, _⟩ :: rest => map_snd_placedEntries place flow (position + 1) rest
  | ⟨some key, keySpan, indicator, value⟩ :: rest => by
    rw [placedEntries, belowEntries, List.map_append, map_snd_down, List.map_cons, map_snd_down,
      List.map_cons, map_snd_placedBelow _ value,
      map_snd_placedEntries place flow (position + 1) rest, List.cons_append, List.cons_append]

end

section Members

variable {place path : Path} {flow : Bool} {position n : Nat} {address rest : List Nat}
  {visit : Visit} {origin visited : Visited}

lemma mem_map_down_iff {visits : List (List Nat × Visit)} :
    (address, visit) ∈ visits.map (down n) ↔ ∃ rest, address = n :: rest ∧ (rest, visit) ∈ visits := by
  rw [List.mem_map]
  constructor
  · rintro ⟨⟨rest, visit⟩, mem, ⟨⟩⟩
    exact ⟨rest, rfl, mem⟩
  · rintro ⟨rest, rfl, mem⟩
    exact ⟨(rest, visit), mem, rfl⟩

/-- The visits to items and below them, item by item. -/
lemma mem_placedItems_iff {items : List Node} :
    (address, visit) ∈ placedItems place flow position items ↔
      ∃ (n : Nat) (item : Node), items[n]? = some item ∧ ∃ rest, address = (position + n) :: rest ∧
        (rest, visit) ∈ ([], ⟨place.child (.index (position + n : Nat)), .item item flow⟩) ::
          placedBelow (place.child (.index (position + n : Nat))) item := by
  induction items generalizing position with
  | nil => simp [placedItems]
  | cons item items ih =>
    rw [placedItems, List.mem_append, mem_map_down_iff, ih]
    constructor
    · rintro (⟨rest, rfl, mem⟩ | ⟨n, other, there, rest, rfl, mem⟩)
      · exact ⟨0, item, rfl, rest, rfl, mem⟩
      · rw [Nat.add_right_comm, Nat.add_assoc] at mem ⊢
        exact ⟨n + 1, other, there, rest, rfl, mem⟩
    · rintro ⟨n, other, there, rest, rfl, mem⟩
      cases n with
      | zero =>
        cases there
        exact .inl ⟨rest, rfl, mem⟩
      | succ n =>
        rw [← Nat.add_assoc, Nat.add_right_comm] at mem ⊢
        exact .inr ⟨n, other, there, rest, rfl, mem⟩

/-- The visits to entries and below them, entry by entry; an entry whose key is no scalar has none. -/
lemma mem_placedEntries_iff {entries : List Entry} :
    (address, visit) ∈ placedEntries place flow position entries ↔
      ∃ (n : Nat) (entry : Entry), entries[n]? = some entry ∧ ∃ key, entry.key = some key ∧
        ∃ rest, address = (position + n) :: rest ∧
          (rest, visit) ∈ ([], ⟨place.child (.field key), .entry entry flow⟩) ::
            (([], ⟨place.child (.field key), .value entry.value⟩) ::
              placedBelow (place.child (.field key)) entry.value).map (down 0) := by
  induction entries generalizing position with
  | nil => simp [placedEntries]
  | cons entry entries ih =>
    obtain ⟨key, keySpan, indicator, value⟩ := entry
    cases key with
    | none =>
      rw [placedEntries, ih]
      constructor
      · rintro ⟨n, other, there, key, named, rest, rfl, mem⟩
        rw [Nat.add_right_comm, Nat.add_assoc]
        exact ⟨n + 1, other, there, key, named, rest, rfl, mem⟩
      · rintro ⟨n, other, there, key, named, rest, rfl, mem⟩
        cases n with
        | zero =>
          cases there
          cases named
        | succ n =>
          rw [← Nat.add_assoc, Nat.add_right_comm]
          exact ⟨n, other, there, key, named, rest, rfl, mem⟩
    | some key =>
      rw [placedEntries, List.mem_append, mem_map_down_iff, ih]
      constructor
      · rintro (⟨rest, rfl, mem⟩ | ⟨n, other, there, key, named, rest, rfl, mem⟩)
        · exact ⟨0, _, rfl, key, rfl, rest, rfl, mem⟩
        · rw [Nat.add_right_comm, Nat.add_assoc]
          exact ⟨n + 1, other, there, key, named, rest, rfl, mem⟩
      · rintro ⟨n, other, there, key, named, rest, rfl, mem⟩
        cases n with
        | zero =>
          cases there
          cases named
          exact .inl ⟨rest, rfl, mem⟩
        | succ n =>
          rw [← Nat.add_assoc, Nat.add_right_comm]
          exact .inr ⟨n, other, there, key, named, rest, rfl, mem⟩

/-- Whatever is visited below a node stands at one of its parts. -/
lemma exists_of_mem_placedBelow {node : Node} (mem : (address, visit) ∈ placedBelow place node) :
    ∃ n rest, address = n :: rest := by
  cases node with
  | scalar => rw [placedBelow] at mem; cases mem
  | «alias» => rw [placedBelow] at mem; cases mem
  | sequence span flow items =>
    rw [placedBelow, mem_placedItems_iff] at mem
    obtain ⟨n, item, -, rest, rfl, -⟩ := mem
    exact ⟨_, rest, rfl⟩
  | mapping span flow entries =>
    rw [placedBelow, mem_placedEntries_iff] at mem
    obtain ⟨n, entry, -, key, -, rest, rfl, -⟩ := mem
    exact ⟨_, rest, rfl⟩

/-- At the address of a node itself only the node is visited. -/
lemma mem_placed_nil_iff {node : Node} :
    ([], visit) ∈ ([], ⟨place, origin⟩) :: placedBelow place node ↔ visit = ⟨place, origin⟩ := by
  rw [List.mem_cons]
  constructor
  · rintro (same | mem)
    · cases same
      rfl
    · obtain ⟨_, _, ⟨⟩⟩ := exists_of_mem_placedBelow mem
  · rintro rfl
    exact .inl rfl

lemma mem_placed_cons_iff {node : Node} :
    (n :: rest, visit) ∈ ([], ⟨place, origin⟩) :: placedBelow place node ↔
      (n :: rest, visit) ∈ placedBelow place node := by
  rw [List.mem_cons]
  constructor
  · rintro (⟨⟨⟩⟩ | mem)
    exact mem
  · exact .inr

lemma under_nil_iff : (∃ segments, path.segments = place.segments ++ segments ∧
    Under origin [] (segments.map some) visited) ↔ (⟨path, visited⟩ : Visit) = ⟨place, origin⟩ := by
  constructor
  · rintro ⟨segments, along, under⟩
    obtain ⟨none, rfl⟩ := under.eq_of_nil
    obtain rfl := List.map_eq_nil_iff.mp none
    rw [List.append_nil] at along
    obtain ⟨_⟩ := path
    obtain ⟨_⟩ := place
    cases along
    rfl
  · rintro ⟨⟩
    exact ⟨[], (List.append_nil _).symm, .here⟩

/-- At a node without parts there is one visit. -/
lemma mem_placed_leaf_iff {node : Node} (is : origin.node? = some node) (none : placedBelow place node = [])
    (sequence : ∀ span flow items, node ≠ .sequence span flow items)
    (mapping : ∀ span flow entries, node ≠ .mapping span flow entries) :
    (address, ⟨path, visited⟩) ∈ ([], ⟨place, origin⟩) :: placedBelow place node ↔
      ∃ segments, path.segments = place.segments ++ segments ∧
        Under origin address (segments.map some) visited := by
  cases address with
  | nil => rw [mem_placed_nil_iff, under_nil_iff]
  | cons n rest =>
    rw [mem_placed_cons_iff, none]
    refine iff_of_false List.not_mem_nil ?_
    rintro ⟨segments, -, under⟩
    exact under.not_leaf is sequence mapping

/-- The visits at an entry are the one to the entry, and those to its value and below. -/
lemma mem_placed_entry_iff {entry : Entry} {visits : List (List Nat × Visit)}
    (value : ∀ {address}, (address, ⟨path, visited⟩) ∈ visits ↔
      ∃ segments, path.segments = place.segments ++ segments ∧
        Under (.value entry.value) address (segments.map some) visited) :
    (address, ⟨path, visited⟩) ∈ ([], ⟨place, .entry entry flow⟩) :: visits.map (down 0) ↔
      ∃ segments, path.segments = place.segments ++ segments ∧
        Under (.entry entry flow) address (segments.map some) visited := by
  rw [List.mem_cons, mem_map_down_iff]
  cases address with
  | nil =>
    rw [under_nil_iff]
    constructor
    · rintro (⟨⟨⟩⟩ | ⟨rest, ⟨⟩, -⟩)
      rfl
    · rintro ⟨⟩
      exact .inl rfl
  | cons n rest =>
    constructor
    · rintro (⟨⟨⟩⟩ | ⟨rest, ⟨⟩, mem⟩)
      obtain ⟨segments, along, under⟩ := value.mp mem
      exact ⟨segments, along, .value under⟩
    · rintro ⟨segments, along, under⟩
      obtain ⟨rfl, inside⟩ := under.of_entry
      exact .inr ⟨rest, rfl, value.mpr ⟨segments, along, inside⟩⟩

/-- The visits to a node and below it are those to all that addresses lead to without a complex key,
each at the keys and positions on the way. -/
lemma mem_placed_iff {node : Node} (is : origin.node? = some node) :
    (address, ⟨path, visited⟩) ∈ ([], ⟨place, origin⟩) :: placedBelow place node ↔
      ∃ segments, path.segments = place.segments ++ segments ∧
        Under origin address (segments.map some) visited := by
  induction node using Node.induct generalizing origin place address with
  | scalar span text => exact mem_placed_leaf_iff is (by rw [placedBelow]) nofun nofun
  | aliased span => exact mem_placed_leaf_iff is (by rw [placedBelow]) nofun nofun
  | sequence span flow items ih =>
    cases address with
    | nil => rw [mem_placed_nil_iff, under_nil_iff]
    | cons n rest =>
      rw [mem_placed_cons_iff, placedBelow, mem_placedItems_iff]
      simp only [Nat.zero_add]
      constructor
      · rintro ⟨n, item, there, rest, ⟨⟩, mem⟩
        obtain ⟨segments, along, under⟩ := (ih item (List.mem_of_getElem? there) rfl).mp mem
        rw [Path.child, List.append_assoc] at along
        exact ⟨.index n :: segments, along, .item is there under⟩
      · rintro ⟨segments, along, under⟩
        obtain ⟨item, later, there, steps, inside⟩ := under.of_sequence is
        obtain ⟨segment, segments, rfl, same, rfl⟩ := List.map_eq_cons_iff.mp steps
        cases same
        refine ⟨n, item, there, rest, rfl, (ih item (List.mem_of_getElem? there) rfl).mpr
          ⟨segments, ?_, inside⟩⟩
        rw [Path.child, List.append_assoc]
        exact along
  | mapping span flow entries ih =>
    cases address with
    | nil => rw [mem_placed_nil_iff, under_nil_iff]
    | cons n rest =>
      rw [mem_placed_cons_iff, placedBelow, mem_placedEntries_iff]
      simp only [Nat.zero_add]
      constructor
      · rintro ⟨n, entry, there, key, named, rest, ⟨⟩, mem⟩
        have step : entry.key.map Segment.field = some (.field key) := by rw [named]; rfl
        obtain ⟨segments, along, under⟩ :=
          (mem_placed_entry_iff (ih entry (List.mem_of_getElem? there) rfl)).mp mem
        rw [Path.child, List.append_assoc] at along
        refine ⟨.field key :: segments, along, ?_⟩
        rw [List.map_cons, ← step]
        exact .entry is there under
      · rintro ⟨segments, along, under⟩
        obtain ⟨entry, later, there, steps, inside⟩ := under.of_mapping is
        obtain ⟨segment, segments, rfl, same, rfl⟩ := List.map_eq_cons_iff.mp steps
        obtain ⟨key, named, rfl⟩ := Option.map_eq_some_iff.mp same.symm
        refine ⟨n, entry, there, key, named, rest, rfl,
          (mem_placed_entry_iff (ih entry (List.mem_of_getElem? there) rfl)).mpr ⟨segments, ?_, inside⟩⟩
        rw [Path.child, List.append_assoc]
        exact along

end Members

/-! ## The order of visits -/

section Order

variable {visits later : List (List Nat × Visit)} {n : Nat}

/-- The visits below a thing, in the order of their addresses, are so further up. -/
lemma pairwise_map_down (ordered : visits.Pairwise fun a b => a.1 < b.1) (n : Nat) :
    (visits.map (down n)).Pairwise fun a b => a.1 < b.1 :=
  List.pairwise_map.mpr (ordered.imp fun lt => List.cons_lt_cons_iff.mpr (.inr ⟨rfl, lt⟩))

/-- A thing comes before all below it. -/
lemma pairwise_nil_cons (ordered : visits.Pairwise fun a b => a.1 < b.1)
    (some : ∀ a ∈ visits, ∃ n rest, a.1 = n :: rest) (visit : Visit) :
    (([], visit) :: visits).Pairwise fun a b => a.1 < b.1 := by
  refine .cons (fun a mem => ?_) ordered
  obtain ⟨n, rest, eq⟩ := some a mem
  rw [eq]
  exact List.nil_lt_cons ..

/-- What is at one position comes before all at later ones. -/
lemma pairwise_append_down (ordered : visits.Pairwise fun a b => a.1 < b.1)
    (ordered' : later.Pairwise fun a b => a.1 < b.1)
    (behind : ∀ a ∈ later, ∃ m rest, n < m ∧ a.1 = m :: rest) :
    (visits.map (down n) ++ later).Pairwise fun a b => a.1 < b.1 := by
  refine List.pairwise_append.mpr ⟨pairwise_map_down ordered n, ordered', fun a mem b mem' => ?_⟩
  obtain ⟨⟨rest, visit⟩, -, rfl⟩ := List.mem_map.mp mem
  obtain ⟨m, rest', lt, eq⟩ := behind b mem'
  rw [eq]
  exact List.cons_lt_cons_iff.mpr (.inl lt)

mutual

/-- Below a node the visits are in the order of their addresses. -/
lemma pairwise_placedBelow (place : Path) (node : Node) :
    (placedBelow place node).Pairwise fun a b => a.1 < b.1 :=
  match node with
  | .scalar _ _ => .nil
  | .alias _ => .nil
  | .sequence _ flow items => pairwise_placedItems place flow 0 items
  | .mapping _ flow entries => pairwise_placedEntries place flow 0 entries

lemma pairwise_placedItems (place : Path) (flow : Bool) (position : Nat) (items : List Node) :
    (placedItems place flow position items).Pairwise fun a b => a.1 < b.1 :=
  match items with
  | [] => .nil
  | item :: rest => by
    rw [placedItems]
    refine pairwise_append_down (pairwise_nil_cons (pairwise_placedBelow _ item)
      (fun _ => exists_of_mem_placedBelow) _)
      (pairwise_placedItems place flow (position + 1) rest) fun a mem => ?_
    obtain ⟨n, -, -, rest, eq, -⟩ := mem_placedItems_iff.mp mem
    exact ⟨_, rest, by omega, eq⟩

lemma pairwise_placedEntries (place : Path) (flow : Bool) (position : Nat)
    (entries : List (EntryOf Node)) :
    (placedEntries place flow position entries).Pairwise fun a b => a.1 < b.1 :=
  match entries with
  | [] => .nil
  | ⟨none, _, _, _⟩ :: rest => pairwise_placedEntries place flow (position + 1) rest
  | ⟨some key, keySpan, indicator, value⟩ :: rest => by
    rw [placedEntries]
    have inside := pairwise_nil_cons (pairwise_placedBelow (place.child (.field key)) value)
      (fun _ => exists_of_mem_placedBelow) ⟨place.child (.field key), .value value⟩
    refine pairwise_append_down (pairwise_nil_cons (pairwise_map_down inside 0)
      (fun a mem => ?_) _) (pairwise_placedEntries place flow (position + 1) rest) fun a mem => ?_
    · obtain ⟨rest, eq, -⟩ := mem_map_down_iff.mp mem
      exact ⟨0, rest, eq⟩
    · obtain ⟨n, -, -, -, -, rest, eq, -⟩ := mem_placedEntries_iff.mp mem
      exact ⟨_, rest, by omega, eq⟩

end

end Order

/-! ## Entries and their values -/

/-- That right behind each entry its value is visited, at the same place. -/
def Paired : List Visit → Prop
  | [] => True
  | visit :: rest =>
    (∀ path entry flow, visit = ⟨path, .entry entry flow⟩ →
      rest.head? = some ⟨path, .value entry.value⟩) ∧ Paired rest

section Pairs

variable {visits later : List Visit}

lemma Paired.cons {visit : Visit} (paired : Paired visits)
    (other : ∀ entry flow, visit.visited ≠ .entry entry flow) : Paired (visit :: visits) :=
  ⟨fun _ entry flow same => absurd (congrArg Visit.visited same) (other entry flow), paired⟩

lemma Paired.cons_entry (paired : Paired visits) (path : Path) (entry : Entry) (flow : Bool) :
    Paired (⟨path, .entry entry flow⟩ :: ⟨path, .value entry.value⟩ :: visits) := by
  refine ⟨fun path' entry' flow' same => ?_, paired.cons nofun⟩
  cases same
  rfl

lemma Paired.append (paired : Paired visits) (paired' : Paired later) : Paired (visits ++ later) := by
  induction visits with
  | nil => exact paired'
  | cons visit visits ih =>
    rw [List.cons_append]
    refine ⟨fun path entry flow same => ?_, ih paired.2⟩
    rw [List.head?_append, paired.1 path entry flow same]
    rfl

lemma Paired.of_append (paired : Paired (visits ++ later)) : Paired later := by
  induction visits with
  | nil => exact paired
  | cons visit visits ih => exact ih paired.2

mutual

/-- Below a node an entry is visited right before its value. -/
lemma paired_below (place : Path) (node : Node) : Paired (below place node) :=
  match node with
  | .scalar _ _ => trivial
  | .alias _ => trivial
  | .sequence _ flow items => paired_belowItems place flow 0 items
  | .mapping _ flow entries => paired_belowEntries place flow entries

lemma paired_belowItems (place : Path) (flow : Bool) (position : Nat) (items : List Node) :
    Paired (belowItems place flow position items) :=
  match items with
  | [] => trivial
  | item :: rest => by
    rw [belowItems]
    exact ((paired_below _ item).append (paired_belowItems place flow (position + 1) rest)).cons
      nofun

lemma paired_belowEntries (place : Path) (flow : Bool) (entries : List (EntryOf Node)) :
    Paired (belowEntries place flow entries) :=
  match entries with
  | [] => trivial
  | ⟨none, _, _, _⟩ :: rest => paired_belowEntries place flow rest
  | ⟨some key, keySpan, indicator, value⟩ :: rest => by
    rw [belowEntries]
    exact ((paired_below _ value).append (paired_belowEntries place flow rest)).cons_entry _
      ⟨some key, keySpan, indicator, value⟩ flow

end

end Pairs

/-! ## Visits to a tree -/

section Trees

variable (tree : Tree)

lemma map_snd_placed : (placed tree).map Prod.snd = walk tree := by
  rw [placed, walk]
  cases tree.root with
  | none => rfl
  | some root => rw [List.map_cons, map_snd_placedBelow]

lemma pairwise_placed : (placed tree).Pairwise fun a b => a.1 < b.1 := by
  rw [placed]
  cases tree.root with
  | none => exact .nil
  | some root =>
    exact pairwise_nil_cons (pairwise_placedBelow .root root)
      (fun _ => exists_of_mem_placedBelow) _

lemma paired_walk : Paired (walk tree) := by
  rw [walk]
  cases tree.root with
  | none => trivial
  | some root => exact (paired_below .root root).cons fun _ _ same => by cases same

variable {tree} {address address' : List Nat} {steps : List (Option Segment)} {path : Path}
  {visited visited' : Visited}

/-- A tree is visited at all that it holds without a complex key on the way. -/
lemma mem_placed_tree_iff :
    (address, ⟨path, visited⟩) ∈ placed tree ↔
      Holds tree address (path.segments.map some) visited := by
  rw [placed, Holds]
  cases tree.root with
  | none => simp
  | some root =>
    simp only [Option.some.injEq, exists_eq_left']
    rw [mem_placed_iff rfl]
    constructor
    · rintro ⟨segments, along, under⟩
      rwa [along]
    · intro under
      exact ⟨path.segments, rfl, under⟩

/-- Nothing is visited at a complex key or below one. -/
lemma not_mem_placed (holds : Holds tree address steps visited) (complex : none ∈ steps)
    (visit : Visit) : (address, visit) ∉ placed tree := by
  intro mem
  obtain ⟨root, is, under⟩ := holds
  obtain ⟨root', is', under'⟩ := mem_placed_tree_iff.mp mem
  cases is.symm.trans is'
  obtain ⟨rfl, -⟩ := under.unique under'
  obtain ⟨segment, -, same⟩ := List.mem_map.mp complex
  cases same

/-- Two places of a tree with the same path hold an entry and its value, or part at equal keys. -/
lemma Holds.coincide (holds : Holds tree address (path.segments.map some) visited)
    (holds' : Holds tree address' (path.segments.map some) visited') (lt : address < address') :
    (∃ entry flow, visited = .entry entry flow ∧ visited' = .value entry.value ∧
      address' = address ++ [0]) ∨
      ∃ root, tree.root = some root ∧ PartAtKey (.root root) address address' := by
  obtain ⟨root, is, under⟩ := holds
  obtain ⟨root', is', under'⟩ := holds'
  cases is.symm.trans is'
  exact (under.coincide (by simp) under' lt).imp_right fun parts => ⟨root, is, parts⟩

variable (tree)

lemma covers_placed : Covers tree (placed tree) where
  ordered := pairwise_placed tree
  held := mem_placed_tree_iff
  skipped := not_mem_placed
  apart mem mem' := (mem_placed_tree_iff.mp mem).coincide (mem_placed_tree_iff.mp mem')

end Trees

/-- A walk visits what a tree holds, in order and at the paths there. An entry comes right before its
value. A traversal with one path that is moved along makes these visits, and comes back from below each
node with the path that it had there. -/
theorem walk_visits (tree : Tree) :
    (∃ visits, visits.map Prod.snd = walk tree ∧ Covers tree visits) ∧
    (∀ front path entry flow behind,
      walk tree = front ++ ⟨path, .entry entry flow⟩ :: behind →
        behind.head? = some ⟨path, .value entry.value⟩) ∧
    ∀ (σ : Type) (visit : σ → Visit → σ) (state : σ),
      traverse visit tree state = (walk tree).foldl visit state ∧
        ∀ place node, traverseBelow visit node (place, state) =
          (place, (below place node).foldl visit state) := by
  refine ⟨⟨placed tree, map_snd_placed tree, covers_placed tree⟩, ?_,
    fun σ visit state => ⟨traverse_eq visit tree state,
      fun place node => traverseBelow_eq visit place state node⟩⟩
  intro front path entry flow behind split
  have paired := paired_walk tree
  rw [split] at paired
  exact paired.of_append.1 path entry flow rfl

end ChartLift.Rewrite
