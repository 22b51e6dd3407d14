import ChartLift.Proofs.Yaml.Building

/-!
# Nested places

Where the offsets of events never decrease and never exceed the source (`Ascends`), what starts later
in the events starts no earlier in the source. So in every tree that is built the parts of a collection
lie within it and one behind the other, and a key ends where its value begins
(`nested_of_ofEvents?`).
-/

namespace ChartLift.Yaml.Layout

open Text (Bytes)

/-! ## Offsets -/

/-- That offsets of events never decrease and never exceed the length of the source. -/
structure Ascends (source : Bytes) (events : List Located) : Prop where
  ordered : events.Pairwise fun a b => a.offset ≤ b.offset
  inside : ∀ event ∈ events, event.offset ≤ source.length

variable {source : Bytes} {front behind : List Located}

lemma Ascends.append_right (ascends : Ascends source (front ++ behind)) : Ascends source behind :=
  ⟨(List.pairwise_append.mp ascends.ordered).2.1,
    fun event mem => ascends.inside event (List.mem_append_right front mem)⟩

/-- Later events follow at no earlier offset. -/
lemma Ascends.following_le (ascends : Ascends source (front ++ behind)) :
    following source (front ++ behind) ≤ following source behind := by
  cases front with
  | nil => exact Nat.le_refl _
  | cons first front =>
    cases behind with
    | nil => exact ascends.inside first List.mem_cons_self
    | cons event behind =>
      have later := (List.pairwise_cons.mp ascends.ordered).1
      exact later event (List.mem_append_right front List.mem_cons_self)

/-! ## Places -/

/-- That a span starts before it stops, or where it stops. -/
def Span.Proper (span : Span) : Prop := span.start ≤ span.stop

/-- That a span lies within another one. -/
structure Span.Within (inner outer : Span) : Prop where
  start : outer.start ≤ inner.start
  stop : inner.stop ≤ outer.stop

/-- That the key and the value of an entry lie within a mapping, the value right behind the key. -/
structure Entry.Fits (span : Span) (entry : Entry) : Prop where
  proper : entry.keySpan.Proper
  key : entry.keySpan.Within span
  value : entry.value.span.Within span
  adjacent : entry.keySpan.stop = entry.value.span.start

/-- That the places of a node and of all its parts are nested: the parts of a collection lie within
it, none of them reaching beyond the start of a later one. -/
inductive Node.Nested : Node → Prop where
  | scalar {span text} :
    span.Proper →
    Nested (.scalar span text)
  | alias {span} :
    span.Proper →
    Nested (.alias span)
  | sequence {span flow} {items : List Node} :
    span.Proper →
    (∀ item ∈ items, item.span.Within span) →
    items.Pairwise (fun a b => a.span.stop ≤ b.span.start) →
    (∀ item ∈ items, Nested item) →
    Nested (.sequence span flow items)
  | mapping {span flow} {entries : List Entry} :
    span.Proper →
    (∀ entry ∈ entries, Entry.Fits span entry) →
    entries.Pairwise (fun a b => a.value.span.stop ≤ b.keySpan.start) →
    (∀ entry ∈ entries, Nested entry.value) →
    Nested (.mapping span flow entries)

lemma Written.proper (written : Written) (ascends : Ascends source (written.events ++ behind)) :
    (written.node source behind).span.Proper := by
  rw [written.span_node, Span.Proper]
  exact ascends.following_le

/-! ## Parts of collections -/

/-- Items lie between their first event and what stands behind their last one. -/
lemma within_itemNodes {items : List Written} (ascends : Ascends source (itemEvents items ++ behind)) :
    ∀ item ∈ itemNodes source behind items,
      item.span.Within ⟨following source (itemEvents items ++ behind), following source behind⟩ := by
  induction items with
  | nil => exact List.forall_mem_nil _
  | cons item items ih =>
    rw [itemEvents, List.append_assoc] at ascends ⊢
    have later := ascends.append_right
    refine List.forall_mem_cons.mpr ⟨?_, fun other mem => ?_⟩
    · rw [item.span_node]
      exact ⟨Nat.le_refl _, later.following_le⟩
    · have within := ih later other mem
      exact ⟨Nat.le_trans ascends.following_le within.start, within.stop⟩

/-- No item reaches beyond the start of a later one. -/
lemma pairwise_itemNodes {items : List Written}
    (ascends : Ascends source (itemEvents items ++ behind)) :
    (itemNodes source behind items).Pairwise fun a b => a.span.stop ≤ b.span.start := by
  induction items with
  | nil => exact .nil
  | cons item items ih =>
    rw [itemEvents, List.append_assoc] at ascends
    have later := ascends.append_right
    refine .cons (fun other mem => ?_) (ih later)
    rw [item.span_node]
    exact (within_itemNodes later other mem).start

/-- Entries lie between their first event and what stands behind their last one. -/
lemma fits_entryNodes {entries : List (Written × Written)}
    (ascends : Ascends source (entryEvents entries ++ behind)) :
    ∀ entry ∈ entryNodes source behind entries, Entry.Fits
      ⟨following source (entryEvents entries ++ behind), following source behind⟩ entry := by
  induction entries with
  | nil => exact List.forall_mem_nil _
  | cons entry entries ih =>
    obtain ⟨key, value⟩ := entry
    rw [entryEvents, List.append_assoc, List.append_assoc] at ascends ⊢
    have atValue := ascends.append_right
    have later := atValue.append_right
    refine List.forall_mem_cons.mpr ⟨?_, fun other mem => ?_⟩
    · have upto := later.following_le
      refine ⟨key.proper ascends, ?_, ?_, ?_⟩
      · rw [entryOf, key.span_node]
        exact ⟨Nat.le_refl _, Nat.le_trans atValue.following_le upto⟩
      · rw [entryOf, value.span_node]
        exact ⟨ascends.following_le, upto⟩
      · rw [entryOf, key.span_node, value.span_node]
    · have fits := ih later other mem
      have front := Nat.le_trans ascends.following_le atValue.following_le
      exact ⟨fits.proper, ⟨Nat.le_trans front fits.key.start, fits.key.stop⟩,
        ⟨Nat.le_trans front fits.value.start, fits.value.stop⟩, fits.adjacent⟩

/-- No value reaches beyond the start of the key of a later entry. -/
lemma pairwise_entryNodes {entries : List (Written × Written)}
    (ascends : Ascends source (entryEvents entries ++ behind)) :
    (entryNodes source behind entries).Pairwise fun a b => a.value.span.stop ≤ b.keySpan.start := by
  induction entries with
  | nil => exact .nil
  | cons entry entries ih =>
    obtain ⟨key, value⟩ := entry
    rw [entryEvents, List.append_assoc, List.append_assoc] at ascends
    have later := ascends.append_right.append_right
    refine .cons (fun other mem => ?_) (ih later)
    rw [entryOf, value.span_node]
    exact (fits_entryNodes later other mem).key.start

/-! ## Whole nodes -/

/-- Behind the event that opens a collection, its parts and the event that closes it still ascend. -/
lemma Ascends.parts {opens closes : Located} {parts : List Located}
    (ascends : Ascends source (opens :: (parts ++ [closes]) ++ behind)) :
    Ascends source (parts ++ closes :: behind) := by
  rw [enclosed_append] at ascends
  exact ascends.append_right

/-- What lies within the parts of a collection lies within the collection. -/
lemma Ascends.wider {opens closes : Located} {parts : List Located}
    (ascends : Ascends source (opens :: (parts ++ [closes]) ++ behind)) {span : Span}
    (within : span.Within
      ⟨following source (parts ++ closes :: behind), following source (closes :: behind)⟩) :
    span.Within ⟨opens.offset, following source behind⟩ := by
  have closing : Ascends source ([closes] ++ behind) := ascends.parts.append_right
  have whole := ascends
  rw [enclosed_append] at whole
  exact ⟨Nat.le_trans whole.following_le within.start,
    Nat.le_trans within.stop closing.following_le⟩

mutual

/-- A node that is written by events which ascend is nested. -/
lemma Written.nested (written : Written) (behind : List Located)
    (ascends : Ascends source (written.events ++ behind)) : (written.node source behind).Nested :=
  match written with
  | .scalar .. => .scalar (Written.proper _ ascends)
  | .alias .. => .alias (Written.proper _ ascends)
  | .sequence start tag anchor items stop => by
    have proper := Written.proper _ ascends
    rw [Written.events] at ascends
    have parts := ascends.parts
    exact .sequence proper (fun item mem => ascends.wider (within_itemNodes parts item mem))
      (pairwise_itemNodes parts) (nested_itemNodes items _ parts)
  | .mapping start tag anchor entries stop => by
    have proper := Written.proper _ ascends
    rw [Written.events] at ascends
    have parts := ascends.parts
    refine .mapping proper (fun entry mem => ?_) (pairwise_entryNodes parts)
      (nested_entryNodes entries _ parts)
    have fits := fits_entryNodes parts entry mem
    exact ⟨fits.proper, ascends.wider fits.key, ascends.wider fits.value, fits.adjacent⟩

lemma nested_itemNodes (items : List Written) (behind : List Located)
    (ascends : Ascends source (itemEvents items ++ behind)) :
    ∀ item ∈ itemNodes source behind items, item.Nested :=
  match items with
  | [] => List.forall_mem_nil _
  | item :: items => by
    rw [itemEvents, List.append_assoc] at ascends
    exact List.forall_mem_cons.mpr
      ⟨item.nested _ ascends, nested_itemNodes items behind ascends.append_right⟩

lemma nested_entryNodes (entries : List (Written × Written)) (behind : List Located)
    (ascends : Ascends source (entryEvents entries ++ behind)) :
    ∀ entry ∈ entryNodes source behind entries, entry.value.Nested :=
  match entries with
  | [] => List.forall_mem_nil _
  | (key, value) :: entries => by
    rw [entryEvents, List.append_assoc, List.append_assoc] at ascends
    have atValue := ascends.append_right
    exact List.forall_mem_cons.mpr
      ⟨value.nested _ atValue, nested_entryNodes entries behind atValue.append_right⟩

end

/-- Where the offsets of events never decrease and never exceed the source, the tree that is built
from them is nested. -/
theorem nested_of_ofEvents? {events : List Located} {tree : Tree} {root : Node}
    (ascends : Ascends source events) (built : Tree.ofEvents? source events = some tree)
    (rooted : tree.root = some root) : root.Nested := by
  rw [Tree.ofEvents?] at built
  split at built
  · cases built
    cases rooted
  next event rest ahead =>
    split at built
    · cases built
      cases rooted
    · obtain ⟨⟨node, left⟩, made, rfl⟩ := Option.map_eq_some_iff.mp built
      cases rooted
      obtain ⟨written, split, rfl⟩ := exists_written_of_build made
      refine written.nested left ?_
      -- the events before the first node are passed over
      rw [← split, ← ahead]
      rw [← List.takeWhile_append_dropWhile (l := events)] at ascends
      exact ascends.append_right

/-- The events of a flow mapping in a flow sequence in a flow mapping. -/
def innerEvents : List Located :=
  [⟨.documentStart, 0⟩, ⟨.mappingStart none none, 0⟩, ⟨.scalar "a" .plain none none, 1⟩,
    ⟨.sequenceStart none none, 4⟩, ⟨.scalar "b" .plain none none, 5⟩,
    ⟨.mappingStart none none, 8⟩, ⟨.scalar "c" .plain none none, 9⟩,
    ⟨.scalar "d" .plain none none, 12⟩, ⟨.mappingEnd, 13⟩, ⟨.sequenceEnd, 14⟩, ⟨.mappingEnd, 15⟩,
    ⟨.documentEnd, 17⟩]

/-- The tree of these events. -/
def innerTree : Tree :=
  ⟨some (.mapping ⟨0, 17⟩ true [⟨some "a", ⟨1, 4⟩, some 2, .sequence ⟨4, 15⟩ true
    [.scalar ⟨5, 8⟩ "b", .mapping ⟨8, 14⟩ true
      [⟨some "c", ⟨9, 12⟩, some 10, .scalar ⟨12, 13⟩ "d"⟩]]⟩]), 17⟩

/-- The events ascend, and the tree is nested. -/
theorem nested_of_ofEvents?_inner :
    Ascends (Text.bytes "\x7ba: [b, \x7bc: d\x7d]\x7d\n") innerEvents ∧
      Tree.ofEvents? (Text.bytes "\x7ba: [b, \x7bc: d\x7d]\x7d\n") innerEvents = some innerTree ∧
      ∃ root, innerTree.root = some root ∧ root.Nested := by
  have ascends : Ascends (Text.bytes "\x7ba: [b, \x7bc: d\x7d]\x7d\n") innerEvents :=
    ⟨by decide +kernel, by decide +kernel⟩
  have built : Tree.ofEvents? (Text.bytes "\x7ba: [b, \x7bc: d\x7d]\x7d\n") innerEvents =
      some innerTree := by
    rfl
  exact ⟨ascends, built, _, rfl, nested_of_ofEvents? ascends built rfl⟩

end ChartLift.Yaml.Layout
