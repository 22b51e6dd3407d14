import ChartLift.Proofs.Yaml.Content.Node
import ChartLift.Proofs.Yaml.Swap
import Mathlib.Data.List.Forall2

/-!
# Nodes of events with others among them

The place of a node is known from the events before it: the names that are bound there, and whether it
is an item, a key or a value. Where the events of some values give way to those of nodes that stand for
them, the nodes that the events make up differ in these values only (`IsNode.exchange`).
-/

namespace ChartLift.Yaml.Content

/-! ## Places -/

/-- What a node is to the collection around it. -/
inductive Slot where
  | item | key | value
  deriving DecidableEq

/-- Where the next node of a document stands: the names bound there, and what it is to each of the
collections around it. -/
structure Place where
  names : Names
  slots : List Slot
  deriving DecidableEq

/-- What the next node of a collection is. -/
def Slot.next : Slot → Slot
  | .item => .item
  | .key => .value
  | .value => .key

namespace Place

/-- The place behind a node that binds some names. -/
def behind (names : Names) : List Slot → Place
  | [] => ⟨names, []⟩
  | slot :: slots => ⟨names, slot.next :: slots⟩

/-- The place behind an event. -/
def after (place : Place) : EventKind → Place
  | .alias _ => behind place.names place.slots
  | .scalar _ _ _ anchor => behind (place.names.declare anchor).2 place.slots
  | .sequenceStart _ anchor => ⟨(place.names.declare anchor).2, .item :: place.slots⟩
  | .mappingStart _ anchor => ⟨(place.names.declare anchor).2, .key :: place.slots⟩
  | .sequenceEnd | .mappingEnd => behind place.names place.slots.tail
  | .documentStart | .documentEnd | .streamEnd => place

end Place

/-! ## Nodes that differ in values only -/

mutual

/-- Nodes that are the same but for values, where the one stands for the other. -/
inductive Framed (same : Node → Node → Prop) : Node → Node → Prop where
  | reference {number : Nat} : Framed same (.alias number) (.alias number)
  | scalar {number : Option Nat} {text : String} {style : ScalarStyle} {tag : Option String} :
      Framed same (.scalar number text style tag) (.scalar number text style tag)
  | sequence {number : Option Nat} {tag : Option String} {items items' : List Node}
      (inner : FramedItems same items items') :
      Framed same (.sequence number tag items) (.sequence number tag items')
  | mapping {number : Option Nat} {tag : Option String} {entries entries' : List (Node × Node)}
      (inner : FramedEntries same entries entries') :
      Framed same (.mapping number tag entries) (.mapping number tag entries')

inductive FramedItems (same : Node → Node → Prop) : List Node → List Node → Prop where
  | nil : FramedItems same [] []
  | cons {x x' : Node} {items items' : List Node} (first : Framed same x x')
      (others : FramedItems same items items') : FramedItems same (x :: items) (x' :: items')

inductive FramedEntries (same : Node → Node → Prop) :
    List (Node × Node) → List (Node × Node) → Prop where
  | nil : FramedEntries same [] []
  | cons {key key' value value' : Node} {entries entries' : List (Node × Node)}
      (first : Framed same key key') (second : Alike same value value')
      (others : FramedEntries same entries entries') :
      FramedEntries same ((key, value) :: entries) ((key', value') :: entries')

/-- Values that differ in values only, or of which one stands for the other. Aliases refer to no node
within the latter. -/
inductive Alike (same : Node → Node → Prop) : Node → Node → Prop where
  | framed {x x' : Node} (within : Framed same x x') : Alike same x x'
  | exchanged {x x' : Node} (stands : same x x') (free : x.numbered = []) (free' : x'.numbered = []) :
      Alike same x x'

end

/-- Events from a place on, of which those of some values give way to those of nodes that stand for
them. The events of the first list may end before those of the second one. -/
inductive Similar (same : Node → Node → Prop) : Place → List EventKind → List EventKind → Prop where
  | done {place : Place} {events events' : List EventKind} (shorter : events <+: events') :
      Similar same place events events'
  | event {place : Place} {event : EventKind} {events events' : List EventKind}
      (later : Similar same (place.after event) events events') :
      Similar same place (event :: events) (event :: events')
  | value {names : Names} {slots : List Slot} {old new later later' : List EventKind} {x x' : Node}
      (here : IsNode names old x names []) (there : IsNode names new x' names []) (stands : same x x')
      (few : old.length ≤ new.length) (others : Similar same ⟨names, .key :: slots⟩ later later') :
      Similar same ⟨names, .value :: slots⟩ (old ++ later) (new ++ later')

mutual

lemma Framed.refl (same : Node → Node → Prop) : ∀ x, Framed same x x
  | .alias _ => .reference
  | .scalar .. => .scalar
  | .sequence _ _ items => .sequence (FramedItems.refl same items)
  | .mapping _ _ entries => .mapping (FramedEntries.refl same entries)

lemma FramedItems.refl (same : Node → Node → Prop) : ∀ items, FramedItems same items items
  | [] => .nil
  | x :: items => .cons (Framed.refl same x) (FramedItems.refl same items)

lemma FramedEntries.refl (same : Node → Node → Prop) : ∀ entries, FramedEntries same entries entries
  | [] => .nil
  | (key, value) :: entries =>
    .cons (Framed.refl same key) (.framed (Framed.refl same value)) (FramedEntries.refl same entries)

end

variable {same : Node → Node → Prop}

lemma FramedItems.forall₂ {items items' : List Node} :
    FramedItems same items items' → List.Forall₂ (Framed same) items items'
  | .nil => .nil
  | .cons first others => .cons first others.forall₂

lemma FramedEntries.forall₂ {entries entries' : List (Node × Node)} :
    FramedEntries same entries entries' →
      List.Forall₂ (fun p q => Framed same p.1 q.1 ∧ Alike same p.2 q.2) entries entries'
  | .nil => .nil
  | .cons first second others => .cons ⟨first, second⟩ others.forall₂

/-- How the nodes at a place of this kind differ. -/
def Slot.Fits (same : Node → Node → Prop) : Slot → Node → Node → Prop
  | .value => Alike same
  | .item | .key => Framed same

lemma Slot.fits_of_framed {x x' : Node} (framed : Framed same x x') : ∀ slot, Slot.Fits same slot x x'
  | .value => .framed framed
  | .item | .key => framed

/-- Only values give way to others. -/
lemma Similar.cons {place : Place} {event : EventKind} {events list : List EventKind}
    (elsewhere : place.slots.head? ≠ some .value) (similar : Similar same place (event :: events) list) :
    ∃ events', list = event :: events' ∧ Similar same (place.after event) events events' := by
  generalize eq : event :: events = first at similar
  cases similar with
  | done shorter =>
    obtain ⟨more, rfl⟩ := eq ▸ shorter
    exact ⟨events ++ more, rfl, .done (List.prefix_append ..)⟩
  | event later =>
    cases eq
    exact ⟨_, rfl, later⟩
  | value => exact absurd rfl elsewhere

mutual

/-- Where a node stands in the one list, one that differs in values only stands in the other. -/
lemma IsNode.exchange {names names' : Names} {events rest events' : List EventKind} {x : Node}
    {slot : Slot} {slots : List Slot} :
    IsNode names events x names' rest → Similar same ⟨names, slot :: slots⟩ events events' →
      ∃ x' rest', IsNode names events' x' names' rest' ∧
        Similar same ⟨names', slot.next :: slots⟩ rest rest' ∧
        slot.Fits same x x' ∧ events.length + rest'.length ≤ events'.length + rest.length := by
  intro is similar
  cases similar with
  | done shorter =>
    obtain ⟨more, rfl⟩ := shorter
    refine ⟨x, rest ++ more, is.append more, .done (List.prefix_append ..),
      slot.fits_of_framed (.refl same x), ?_⟩
    simp only [List.length_append]
    omega
  | value here there stands few others =>
    obtain ⟨rfl, rfl, rfl⟩ := is.unique (here.append _)
    refine ⟨_, _, there.append _, others,
      .exchanged stands here.numbered_eq_nil there.numbered_eq_nil, ?_⟩
    simp only [List.length_append, List.nil_append]
    omega
  | event later =>
    cases is with
    | reference bound =>
      refine ⟨_, _, .reference bound, later, slot.fits_of_framed .reference, ?_⟩
      simp only [List.length_cons]
      omega
    | scalar =>
      refine ⟨_, _, .scalar, later, slot.fits_of_framed .scalar, ?_⟩
      simp only [List.length_cons]
      omega
    | sequence inner =>
      obtain ⟨items', rest', inner', behind, framed, count⟩ := inner.exchange later
      refine ⟨_, rest', .sequence inner', behind, slot.fits_of_framed (.sequence framed), ?_⟩
      simp only [List.length_cons]
      omega
    | mapping inner =>
      obtain ⟨entries', rest', inner', behind, framed, count⟩ := inner.exchange later
      refine ⟨_, rest', .mapping inner', behind, slot.fits_of_framed (.mapping framed), ?_⟩
      simp only [List.length_cons]
      omega

lemma AreNodes.exchange {names names' : Names} {events rest events' : List EventKind} {items : List Node}
    {slots : List Slot} :
    AreNodes names events items names' rest → Similar same ⟨names, .item :: slots⟩ events events' →
      ∃ items' rest', AreNodes names events' items' names' rest' ∧
        Similar same (Place.behind names' slots) rest rest' ∧ FramedItems same items items' ∧
        events.length + rest'.length ≤ events'.length + rest.length
  | .done, similar => by
    obtain ⟨rest', rfl, behind⟩ := similar.cons (by simp)
    exact ⟨[], rest', .done, behind, .nil, by simp only [List.length_cons]; omega⟩
  | .item first others, similar => by
    obtain ⟨x', events₁, first', behind, framed, count⟩ := first.exchange similar
    obtain ⟨items', rest', others', behind', framed', count'⟩ := others.exchange behind
    exact ⟨_, rest', .item first' others', behind', .cons framed framed', by omega⟩

lemma ArePairs.exchange {names names' : Names} {events rest events' : List EventKind}
    {entries : List (Node × Node)} {slots : List Slot} :
    ArePairs names events entries names' rest → Similar same ⟨names, .key :: slots⟩ events events' →
      ∃ entries' rest', ArePairs names events' entries' names' rest' ∧
        Similar same (Place.behind names' slots) rest rest' ∧ FramedEntries same entries entries' ∧
        events.length + rest'.length ≤ events'.length + rest.length
  | .done, similar => by
    obtain ⟨rest', rfl, behind⟩ := similar.cons (by simp)
    exact ⟨[], rest', .done, behind, .nil, by simp only [List.length_cons]; omega⟩
  | .entry first second others, similar => by
    obtain ⟨key', events₁, first', behind, framed, count⟩ := first.exchange similar
    obtain ⟨value', events₂, second', behind', alike, count'⟩ := second.exchange behind
    obtain ⟨entries', rest', others', behind'', framed', count''⟩ := others.exchange behind'
    exact ⟨_, rest', .entry first' second' others', behind'', .cons framed alike framed', by omega⟩

end

/-! ## Numbered nodes -/

/-- Nodes of the same number that differ in values only. -/
def SameNumber (same : Node → Node → Prop) (p q : Nat × Node) : Prop :=
  q.1 = p.1 ∧ Framed same p.2 q.2

lemma Framed.at_number {x x' : Node} (framed : Framed same x x') (number : Option Nat) :
    List.Forall₂ (SameNumber same) (number.toList.map (·, x)) (number.toList.map (·, x')) := by
  cases number with
  | none => exact .nil
  | some number => exact .cons ⟨rfl, framed⟩ .nil

mutual

/-- Nodes with numbers differ in values only, too. -/
lemma Framed.numbered {x x' : Node} :
    Framed same x x' → List.Forall₂ (SameNumber same) x.numbered x'.numbered
  | .reference => .nil
  | .scalar => Framed.scalar.at_number _
  | .sequence inner => List.rel_append ((Framed.sequence inner).at_number _) inner.numbered
  | .mapping inner => List.rel_append ((Framed.mapping inner).at_number _) inner.numbered

lemma FramedItems.numbered {items items' : List Node} : FramedItems same items items' →
      List.Forall₂ (SameNumber same) (numberedItems items) (numberedItems items')
  | .nil => .nil
  | .cons first others => List.rel_append first.numbered others.numbered

lemma FramedEntries.numbered {entries entries' : List (Node × Node)} :
    FramedEntries same entries entries' →
      List.Forall₂ (SameNumber same) (numberedEntries entries) (numberedEntries entries')
  | .nil => .nil
  | .cons first second others =>
    List.rel_append (List.rel_append first.numbered second.numbered) others.numbered

lemma Alike.numbered {x x' : Node} :
    Alike same x x' → List.Forall₂ (SameNumber same) x.numbered x'.numbered
  | .framed within => within.numbered
  | .exchanged _ free free' => by rw [free, free']; exact .nil

end

end ChartLift.Yaml.Content
