import ChartLift.Proofs.Yaml.Content.Exchange
import ChartLift.Yaml.Content.Value

/-!
# Values of documents that differ in values

A node stands for another one if it means the same without help of the document around it
(`Document.Stands`). A document in which some values give way to nodes that stand for them means the same
(`Document.Akin.toValue?`), also if it is only read from events (`readStream_of_passes`).
-/

namespace ChartLift.Yaml.Content

/-! ## Values step by step -/

namespace Document

/-- The text of a key, and how often aliases have been followed by then. -/
def key? (document : Document) (jumps : Nat) (x : Node) : Option (String × Nat) :=
  (document.follow jumps x).bind fun
    | (.scalar _ key _ _, jumps) => some (key, jumps)
    | _ => none

/-- One item more behind those that have been read. -/
def addItem (document : Document) (depth : Nat) (state : Option (List Value × Nat)) (item : Node) :
    Option (List Value × Nat) := do
  let (values, jumps) ← state
  let (value, jumps) ← document.value depth jumps item
  return (value :: values, jumps)

/-- One entry more behind those that have been read. -/
def addEntry (document : Document) (depth : Nat) (state : Option (Entries × Nat)) (entry : Node × Node) :
    Option (Entries × Nat) := do
  let (values, jumps) ← state
  match ← document.follow jumps entry.1 with
  | (.scalar _ key _ _, jumps) =>
    let (value, jumps) ← document.value depth jumps entry.2
    return (values.bind key value, jumps)
  | _ => none

/-- The value of a node that is no alias. -/
def direct (document : Document) (depth jumps : Nat) : Node → Option (Value × Nat)
  | .alias _ => none
  | .scalar _ text style tag => (scalarValue? text style tag).map fun value => (value, jumps)
  | .sequence _ tag items =>
    if tag.any isLocalTag then none
    else
      match depth with
      | 0 => none
      | depth + 1 =>
        (items.foldl (document.addItem depth) (some ([], jumps))).map fun (values, jumps) =>
          (.sequence values.reverse, jumps)
  | .mapping _ tag entries =>
    if tag.any isLocalTag then none
    else
      match depth with
      | 0 => none
      | depth + 1 =>
        (entries.foldl (document.addEntry depth) (some ([], jumps))).map fun (values, jumps) =>
          (.mapping values, jumps)

lemma addItem_some (document : Document) (depth jumps : Nat) (values : List Value) (item : Node) :
    document.addItem depth (some (values, jumps)) item =
      (document.value depth jumps item).map fun (value, jumps) => (value :: values, jumps) :=
  (Option.map_eq_bind ..).symm

lemma addEntry_some (document : Document) (depth jumps : Nat) (values : Entries) (entry : Node × Node) :
    document.addEntry depth (some (values, jumps)) entry =
      (document.key? jumps entry.1).bind fun (key, jumps) =>
        (document.value depth jumps entry.2).map fun (value, jumps) =>
          (values.bind key value, jumps) := by
  simp only [addEntry, key?, Option.bind_eq_bind, Option.bind_some]
  cases document.follow jumps entry.1 with
  | none => rfl
  | some found =>
    obtain ⟨x, jumps⟩ := found
    cases x with
    | scalar => exact (Option.map_eq_bind ..).symm
    | _ => rfl

/-- The value of a node is that of the node that it stands for. -/
lemma value_eq (document : Document) (depth jumps : Nat) (x : Node) :
    document.value depth jumps x =
      (document.follow jumps x).bind fun (node, jumps) => document.direct depth jumps node := by
  rw [Document.value.eq_def]
  cases document.follow jumps x with
  | none => rfl
  | some result =>
    obtain ⟨node, jumps⟩ := result
    cases node <;> cases depth <;> rfl

end Document

/-! ## Readings that come to the same -/

/-- Readings that come to the same from fitting numbers of jumps, with fitting numbers behind it. -/
def Meets {σ : Type} (fits : Nat → Nat → Prop) (reading reading' : Nat → Option (σ × Nat)) : Prop :=
  ∀ jumps k result j, fits jumps k → reading jumps = some (result, j) →
    ∃ k', reading' k = some (result, k') ∧ fits j k'

namespace Meets

variable {σ τ β : Type} {fits : Nat → Nat → Prop}

lemma bind {first first' : Nat → Option (σ × Nat)} {next next' : σ → Nat → Option (τ × Nat)}
    (one : Meets fits first first') (later : ∀ found, Meets fits (next found) (next' found)) :
    Meets fits (fun jumps => (first jumps).bind fun (found, jumps) => next found jumps)
      fun k => (first' k).bind fun (found, k) => next' found k := by
  intro jumps k result j fit reads
  obtain ⟨⟨found, jumps₁⟩, finds, reads⟩ := Option.bind_eq_some_iff.mp reads
  obtain ⟨k₁, finds', fit₁⟩ := one _ _ _ _ fit finds
  obtain ⟨k', reads', fit'⟩ := later found _ _ _ _ fit₁ reads
  exact ⟨k', Option.bind_eq_some_iff.mpr ⟨_, finds', reads'⟩, fit'⟩

lemma map {reading reading' : Nat → Option (σ × Nat)} (meets : Meets fits reading reading')
    (f : σ → τ) :
    Meets fits (fun jumps => (reading jumps).map fun (found, jumps) => (f found, jumps))
      fun k => (reading' k).map fun (found, k) => (f found, k) := by
  intro jumps k result j fit reads
  obtain ⟨⟨found, jumps₁⟩, finds, eq⟩ := Option.map_eq_some_iff.mp reads
  cases eq
  obtain ⟨k', finds', fit'⟩ := meets _ _ _ _ fit finds
  exact ⟨k', Option.map_eq_some_iff.mpr ⟨_, finds', rfl⟩, fit'⟩

lemma foldl {r : β → β → Prop} {step step' : Option (σ × Nat) → β → Option (σ × Nat)}
    (stuck : ∀ x, step none x = none)
    (goes : ∀ {x x'}, r x x' → ∀ state,
      Meets fits (fun jumps => step (some (state, jumps)) x) fun k => step' (some (state, k)) x')
    {xs xs' : List β} (both : List.Forall₂ r xs xs') (state : σ) :
    Meets fits (fun jumps => xs.foldl step (some (state, jumps)))
      fun k => xs'.foldl step' (some (state, k)) := by
  induction both generalizing state with
  | nil =>
    intro jumps k result j fit reads
    cases reads
    exact ⟨k, rfl, fit⟩
  | @cons x x' xs xs' first _ ih =>
    intro jumps k result j fit reads
    simp only [List.foldl_cons] at reads
    cases one : step (some (state, jumps)) x with
    | none =>
      have stays : ∀ xs : List β, xs.foldl step none = none := fun xs => by
        induction xs with
        | nil => rfl
        | cons x xs ih => rw [List.foldl_cons, stuck, ih]
      rw [one, stays] at reads
      cases reads
    | some found =>
      rw [one] at reads
      obtain ⟨k₁, one', fit₁⟩ := goes first state _ _ _ _ fit one
      obtain ⟨k', reads', fit'⟩ := ih found.1 _ _ _ _ fit₁ reads
      exact ⟨k', by simp only [List.foldl_cons, one', reads'], fit'⟩

variable {document other : Document} {depth : Nat}

/-- Items that mean the same one by one do so together. -/
lemma items {r : Node → Node → Prop}
    (same : ∀ {x x'}, r x x' → Meets fits (document.value depth · x) (other.value depth · x'))
    {xs xs' : List Node} (both : List.Forall₂ r xs xs') :
    Meets fits (fun jumps => xs.foldl (document.addItem depth) (some ([], jumps)))
      fun k => xs'.foldl (other.addItem depth) (some ([], k)) := by
  refine foldl (fun _ => rfl) (fun related state => ?_) both []
  simp only [Document.addItem_some]
  exact (same related).map (· :: state)

/-- Entries that mean the same one by one do so together. -/
lemma entries {r : Node × Node → Node × Node → Prop}
    (keys : ∀ {x x'}, r x x' → Meets fits (document.key? · x.1) (other.key? · x'.1))
    (same : ∀ {x x'}, r x x' → Meets fits (document.value depth · x.2) (other.value depth · x'.2))
    {xs xs' : List (Node × Node)} (both : List.Forall₂ r xs xs') :
    Meets fits (fun jumps => xs.foldl (document.addEntry depth) (some ([], jumps)))
      fun k => xs'.foldl (other.addEntry depth) (some ([], k)) := by
  refine foldl (fun _ => rfl) (fun related state => ?_) both []
  simp only [Document.addEntry_some]
  exact (keys related).bind fun key => (same related).map (Entries.bind state key)

/-- Sequences mean the same if their items do, at the depth that is left for them. -/
lemma sequence {number number' : Option Nat} {tag tag' : Option String} {xs xs' : List Node}
    (global : tag.any isLocalTag = false → tag'.any isLocalTag = false)
    (inner : ∀ n, n + 1 = depth →
      Meets fits (fun jumps => xs.foldl (document.addItem n) (some ([], jumps)))
        fun k => xs'.foldl (other.addItem n) (some ([], k))) :
    Meets fits (document.direct depth · (.sequence number tag xs))
      (other.direct depth · (.sequence number' tag' xs')) := by
  intro jumps k result j fit reads
  simp only [Document.direct] at reads ⊢
  obtain ⟨untagged, reads⟩ := Option.ite_none_left_eq_some.mp reads
  rw [if_neg (by simpa using global (by simpa using untagged))]
  cases depth with
  | zero => cases reads
  | succ n => exact (inner n rfl).map (Value.sequence ·.reverse) _ _ _ _ fit reads

/-- Mappings mean the same if their entries do, at the depth that is left for them. -/
lemma mapping {number number' : Option Nat} {tag tag' : Option String} {xs xs' : List (Node × Node)}
    (global : tag.any isLocalTag = false → tag'.any isLocalTag = false)
    (inner : ∀ n, n + 1 = depth →
      Meets fits (fun jumps => xs.foldl (document.addEntry n) (some ([], jumps)))
        fun k => xs'.foldl (other.addEntry n) (some ([], k))) :
    Meets fits (document.direct depth · (.mapping number tag xs))
      (other.direct depth · (.mapping number' tag' xs')) := by
  intro jumps k result j fit reads
  simp only [Document.direct] at reads ⊢
  obtain ⟨untagged, reads⟩ := Option.ite_none_left_eq_some.mp reads
  rw [if_neg (by simpa using global (by simpa using untagged))]
  cases depth with
  | zero => cases reads
  | succ n => exact (inner n rfl).map Value.mapping _ _ _ _ fit reads

/-- Nodes that are no aliases mean the same if they do so directly. -/
lemma of_direct {x x' : Node} (here : ∀ jumps, document.follow jumps x = some (x, jumps))
    (there : ∀ jumps, other.follow jumps x' = some (x', jumps))
    (meets : Meets fits (document.direct depth · x) (other.direct depth · x')) :
    Meets fits (document.value depth · x) (other.value depth · x') := by
  simpa only [Document.value_eq, here, there, Option.bind_some] using meets

lemma scalar {number number' : Option Nat} {text text' : String} {style style' : ScalarStyle}
    {tag tag' : Option String} (same : scalarValue? text' style' tag' = scalarValue? text style tag) :
    Meets fits (document.direct depth · (.scalar number text style tag))
      (other.direct depth · (.scalar number' text' style' tag')) := by
  intro jumps k result j fit reads
  obtain ⟨value, means, eq⟩ := Option.map_eq_some_iff.mp reads
  cases eq
  exact ⟨k, by simp only [Document.direct, same, means, Option.map_some], fit⟩

end Meets

namespace Document

/-! ## Nodes that stand for others -/

/-- Whatever value the one node means in this document, the other one means it in any document, with
aliases followed no more often. -/
def Stands (document : Document) (x x' : Node) : Prop :=
  ∀ depth jumps value behind, document.value depth jumps x = some (value, behind) →
    ∀ (other : Document) (k : Nat),
      ∃ k', other.value depth k x' = some (value, k') ∧ jumps + k' ≤ k + behind

variable {document other : Document} {x x' y : Node} {jumps k j depth : Nat} {value : Value}

lemma stands_iff : document.Stands x x' ↔ ∀ (other : Document) (depth start start' : Nat),
    Meets (fun jumps k => start + k ≤ start' + jumps) (document.value depth · x)
      (other.value depth · x') := by
  constructor
  · intro stands other depth start start' jumps k value j fit means
    obtain ⟨k', means', fewer⟩ := stands _ _ _ _ means other k
    exact ⟨k', means', by omega⟩
  · intro meets depth jumps value j means other k
    exact meets other depth jumps k _ _ _ _ (Nat.le_of_eq (Nat.add_comm ..)) means

/-- A scalar stands for another one of the same value. -/
lemma stands_scalar {number number' : Option Nat} {text text' : String} {style style' : ScalarStyle}
    {tag tag' : Option String} (same : scalarValue? text' style' tag' = scalarValue? text style tag) :
    document.Stands (.scalar number text style tag) (.scalar number' text' style' tag') :=
  stands_iff.mpr fun _ _ _ _ => .of_direct (fun _ => rfl) (fun _ => rfl) (.scalar same)

/-- Sequences stand for each other as their items do. -/
lemma stands_sequence {number number' : Option Nat} {tag tag' : Option String} {xs xs' : List Node}
    (global : tag.any isLocalTag = false → tag'.any isLocalTag = false)
    (both : List.Forall₂ document.Stands xs xs') :
    document.Stands (.sequence number tag xs) (.sequence number' tag' xs') :=
  stands_iff.mpr fun other _ start start' => .of_direct (fun _ => rfl) (fun _ => rfl) <|
    .sequence global fun n _ =>
      .items (fun stands => stands_iff.mp stands other n start start') both

/-- Keys with the same text. -/
inductive SameKey : Node → Node → Prop where
  | intro {number number' : Option Nat} {text : String} {style style' : ScalarStyle}
      {tag tag' : Option String} :
      SameKey (.scalar number text style tag) (.scalar number' text style' tag')

lemma SameKey.meets {fits : Nat → Nat → Prop} (same : SameKey x x') :
    Meets fits (document.key? · x) (other.key? · x') := by
  cases same
  intro jumps k result j fit reads
  cases reads
  exact ⟨k, rfl, fit⟩

/-- Mappings stand for each other if their values do under the same keys. -/
lemma stands_mapping {number number' : Option Nat} {tag tag' : Option String}
    {xs xs' : List (Node × Node)} (global : tag.any isLocalTag = false → tag'.any isLocalTag = false)
    (both : List.Forall₂ (fun p q => SameKey p.1 q.1 ∧ document.Stands p.2 q.2) xs xs') :
    document.Stands (.mapping number tag xs) (.mapping number' tag' xs') :=
  stands_iff.mpr fun other _ start start' => .of_direct (fun _ => rfl) (fun _ => rfl) <|
    .mapping global fun n _ =>
      .entries (fun related => related.1.meets)
        (fun related => stands_iff.mp related.2 other n start start') both

/-! ## Documents that differ in values -/

/-- A document that differs in values only, where nodes stand for those of the first one. -/
structure Akin (document other : Document) : Prop where
  root : Framed document.Stands document.root other.root
  targets : List.Forall₂ (SameNumber document.Stands) document.targets other.targets
  eventCount : document.eventCount ≤ other.eventCount

namespace Akin

lemma lookup {same : Node → Node → Prop} {targets targets' : List (Nat × Node)} {number : Nat}
    (both : List.Forall₂ (SameNumber same) targets targets')
    (found : targets.lookup number = some x) :
    ∃ x', targets'.lookup number = some x' ∧ Framed same x x' := by
  induction both with
  | nil => cases found
  | @cons p q _ _ first _ ih =>
    obtain ⟨p₁, p₂⟩ := p
    obtain ⟨q₁, q₂⟩ := q
    obtain ⟨rfl, related⟩ : q₁ = p₁ ∧ _ := first
    rw [List.lookup_cons] at found ⊢
    split at found
    · cases found
      exact ⟨q₂, rfl, related⟩
    · exact ih found

/-- Aliases are followed alike. -/
lemma follow (akin : document.Akin other) (framed : Framed document.Stands x x') (le : k ≤ jumps)
    (follows : document.follow jumps x = some (y, j)) :
    ∃ y' k', other.follow k x' = some (y', k') ∧ Framed document.Stands y y' ∧ k' ≤ j := by
  cases framed with
  | reference =>
    have few : ¬document.maximalJumps < jumps + 1 := fun many => by
      rw [Document.follow, if_pos many] at follows
      cases follows
    have few' : ¬other.maximalJumps < k + 1 := by
      have := akin.eventCount
      simp only [maximalJumps] at few ⊢
      omega
    rw [Document.follow, if_neg few] at follows
    obtain ⟨target, found, eq⟩ := Option.map_eq_some_iff.mp follows
    cases eq
    obtain ⟨target', found', framed⟩ := lookup akin.targets found
    exact ⟨target', k + 1, by rw [Document.follow, if_neg few', found']; rfl, framed, by omega⟩
  | scalar =>
    cases follows
    exact ⟨_, k, rfl, .scalar, le⟩
  | sequence inner =>
    cases follows
    exact ⟨_, k, rfl, .sequence inner, le⟩
  | mapping inner =>
    cases follows
    exact ⟨_, k, rfl, .mapping inner, le⟩

/-- Keys have the same text. -/
lemma key? (akin : document.Akin other) (framed : Framed document.Stands x x') :
    Meets (fun jumps k => k ≤ jumps) (document.key? · x) (other.key? · x') := by
  intro jumps k result j le reads
  obtain ⟨⟨y, jumps₁⟩, follows, reads⟩ := Option.bind_eq_some_iff.mp reads
  obtain ⟨y', k₁, follows', framed', le'⟩ := akin.follow framed le follows
  cases framed' with
  | scalar =>
    cases reads
    exact ⟨k₁, by simp only [Document.key?, follows', Option.bind_some], le'⟩
  | reference => cases reads
  | sequence => cases reads
  | mapping => cases reads

/-- What stands at the same place of akin documents means the same. -/
lemma meets (akin : document.Akin other) {depth : Nat} (alike : Alike document.Stands x x') :
    Meets (fun jumps k => k ≤ jumps) (document.value depth · x) (other.value depth · x') := by
  induction depth using Nat.strongRecOn generalizing x x' with
  | _ depth ih =>
    intro jumps k value j le means
    cases alike with
    | exchanged stands =>
      obtain ⟨k', means', fewer⟩ := stands _ _ _ _ means other k
      exact ⟨k', means', by omega⟩
    | framed framed =>
      simp only [value_eq] at means ⊢
      obtain ⟨⟨y, jumps₁⟩, follows, means⟩ := Option.bind_eq_some_iff.mp means
      obtain ⟨y', k₁, follows', framed', le₁⟩ := akin.follow framed le follows
      have direct : Meets (fun jumps k => k ≤ jumps) (document.direct depth · y)
          (other.direct depth · y') := by
        cases framed' with
        | reference => exact fun _ _ _ _ _ reads => by cases reads
        | scalar => exact .scalar rfl
        | sequence inner =>
          exact .sequence id fun n eq =>
            .items (fun framed => ih n (by omega) (.framed framed)) inner.forall₂
        | mapping inner =>
          exact .mapping id fun n eq => .entries (fun related => akin.key? related.1)
            (fun related => ih n (by omega) related.2) inner.forall₂
      obtain ⟨k', means', le'⟩ := direct _ _ _ _ le₁ means
      exact ⟨k', by rw [follows']; exact means', le'⟩

/-- Akin documents mean the same. -/
lemma toValue? (akin : document.Akin other) {value : Value} (means : document.toValue? = some value) :
    other.toValue? = some value := by
  obtain ⟨⟨value, j⟩, within, rfl⟩ := Option.map_eq_some_iff.mp means
  obtain ⟨k', means', -⟩ := akin.meets (.framed akin.root) _ _ _ _ (Nat.le_refl 0) within
  exact Option.map_eq_some_iff.mpr ⟨_, means', rfl⟩

end Akin

end Document

/-! ## Documents of events -/

namespace Place

variable {same : Node → Node → Prop} {place : Place} {swaps : List (Swap EventKind)}
  {said said' : List EventKind}

/-- The place at the start of a document. -/
def begun : Place := ⟨[], [.item]⟩

/-- The place behind some events. -/
def afterAll (place : Place) (events : List EventKind) : Place := events.foldl after place

/-- Going through events, one comes past those of some values, which may give way to those of nodes
that stand for them. -/
inductive PassesAll (same : Node → Node → Prop) : Place → List (Swap EventKind) → Prop
  | done {place : Place} : PassesAll same place []
  | cons {place : Place} {names : Names} {slots : List Slot}
      {front before old new after : List EventKind} {x x' : Node} {swaps : List (Swap EventKind)}
      (way : place.afterAll (front ++ before) = ⟨names, .value :: slots⟩)
      (here : IsNode names old x names []) (there : IsNode names new x' names []) (stands : same x x')
      (few : old.length ≤ new.length)
      (later : PassesAll same (afterAll ⟨names, .key :: slots⟩ after) swaps) :
      PassesAll same place (⟨front, before ++ (old ++ after), before ++ (new ++ after)⟩ :: swaps)

lemma similar_append {events events' : List EventKind} (front : List EventKind)
    (similar : Similar same (place.afterAll front) events events') :
    Similar same place (front ++ events) (front ++ events') := by
  induction front generalizing place with
  | nil => exact similar
  | cons event front ih => exact .event (ih similar)

lemma PassesAll.similar (passes : place.PassesAll same swaps) (shorter : said <+: said') :
    Similar same place (Swap.source swaps said) (Swap.result swaps said') := by
  induction passes with
  | done => exact .done shorter
  | @cons place names slots front before old new after x x' swaps way here there stands few later ih =>
    have value := Similar.value here there stands few (similar_append after ih)
    rw [← way] at value
    simpa [Swap.source, Swap.result] using similar_append (front ++ before) value

end Place

/-- What a text says as events. -/
abbrev eventsOf (text : List Char) : List EventKind :=
  ((tokens text).events dialect).events.map Event.kind

lemma takeWhile_isNodeEvent {taken rest : List EventKind} (all : taken.all isNodeEvent = true) :
    (taken ++ .documentEnd :: rest).takeWhile isNodeEvent = taken := by
  rw [List.takeWhile_append_of_pos (List.all_eq_true.mp all)]
  simp [isNodeEvent]

/-- A text begins with a document if it says that one starts, a node and that it ends. -/
lemma readStream_of_node {text : List Char} {taken rest : List EventKind} {root : Node} {names : Names}
    (lists : eventsOf text = .documentStart :: (taken ++ .documentEnd :: rest))
    (is : IsNode [] (taken ++ .documentEnd :: rest) root names (.documentEnd :: rest)) :
    readStream text =
      .document ⟨root, root.numbered.reverse, taken.length⟩ (rest != [.streamEnd]) := by
  obtain ⟨taken', eq, -, all⟩ := is.taken
  obtain rfl := List.append_cancel_right eq
  have reads := is.read (show _ ≤ _ + ((taken ++ .documentEnd :: rest).length + 1) by omega)
  rw [eventsOf] at lists
  rw [readStream, lists]
  simp only [reads, takeWhile_isNodeEvent all]

lemma node_of_readStream {text : List Char} {document : Document} {more : Bool}
    (reads : readStream text = .document document more) :
    ∃ taken names rest, eventsOf text = .documentStart :: (taken ++ .documentEnd :: rest) ∧
      IsNode [] (taken ++ .documentEnd :: rest) document.root names (.documentEnd :: rest) ∧
      document.targets = document.root.numbered.reverse ∧ document.eventCount = taken.length := by
  simp only [readStream] at reads
  split at reads
  · cases reads
  next events lists =>
    split at reads
    next root names rest within =>
      cases reads
      have is := (are_of_read _).1 _ _ _ _ _ within
      obtain ⟨taken, rfl, -, all⟩ := is.taken
      exact ⟨taken, names, rest, lists, is, rfl, by rw [takeWhile_isNodeEvent all]⟩
    · cases reads
  · cases reads

/-- A document in which some values give way to nodes that stand for them means the same. -/
theorem readStream_of_passes {text text' : List Char} {document : Document} {more : Bool}
    (reads : readStream text = .document document more) {swaps : List (Swap EventKind)}
    (passes : Place.begun.PassesAll document.Stands swaps) {said said' : List EventKind}
    (shorter : said <+: said') (lists : eventsOf text = Swap.source swaps said)
    (lists' : eventsOf text' = Swap.result swaps said') :
    ∃ other more', readStream text' = .document other more' ∧ document.Akin other := by
  obtain ⟨taken, names, rest, events, is, targets, count⟩ := node_of_readStream reads
  have similar := passes.similar shorter
  rw [← lists, ← lists', events] at similar
  obtain ⟨list, events', similar⟩ := similar.cons (by simp [Place.begun])
  obtain ⟨root, rest', is', behind, framed, count'⟩ := is.exchange similar
  obtain ⟨rest', rfl, -⟩ := behind.cons (by simp [Slot.next])
  obtain ⟨taken', rfl, -, -⟩ := is'.taken
  refine ⟨_, _, readStream_of_node events' is', framed, ?_, ?_⟩
  · rw [targets]
    exact List.forall₂_reverse_iff.mpr framed.numbered
  · simp only [List.length_append, List.length_cons] at count'
    simp only [count]
    omega

end ChartLift.Yaml.Content
