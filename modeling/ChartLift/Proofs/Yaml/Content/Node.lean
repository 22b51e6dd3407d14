import ChartLift.Yaml.Content.Node
import Mathlib.Tactic.Lemma

/-!
# Events of nodes

The nodes that events make up, and what of the events is theirs.
-/

namespace ChartLift.Yaml.Content

mutual

/-- A node that events begin with, the names that are bound before and behind it, and what is left. -/
inductive IsNode : Names → List EventKind → Node → Names → List EventKind → Prop where
  | reference {names : Names} {name : String} {number : Nat} {rest : List EventKind}
      (bound : names.lookup name = some number) :
      IsNode names (.alias name :: rest) (.alias number) names rest
  | scalar {names : Names} {text : String} {style : ScalarStyle} {tag anchor : Option String}
      {rest : List EventKind} :
      IsNode names (.scalar text style tag anchor :: rest)
        (.scalar (names.declare anchor).1 text style tag) (names.declare anchor).2 rest
  | sequence {names names' : Names} {tag anchor : Option String} {events rest : List EventKind}
      {items : List Node} (inner : AreNodes (names.declare anchor).2 events items names' rest) :
      IsNode names (.sequenceStart tag anchor :: events)
        (.sequence (names.declare anchor).1 tag items) names' rest
  | mapping {names names' : Names} {tag anchor : Option String} {events rest : List EventKind}
      {entries : List (Node × Node)}
      (inner : ArePairs (names.declare anchor).2 events entries names' rest) :
      IsNode names (.mappingStart tag anchor :: events)
        (.mapping (names.declare anchor).1 tag entries) names' rest

/-- The items up to the end of a sequence. -/
inductive AreNodes : Names → List EventKind → List Node → Names → List EventKind → Prop where
  | done {names : Names} {rest : List EventKind} : AreNodes names (.sequenceEnd :: rest) [] names rest
  | item {names names₁ names' : Names} {events events₁ rest : List EventKind} {x : Node}
      {items : List Node} (first : IsNode names events x names₁ events₁)
      (others : AreNodes names₁ events₁ items names' rest) :
      AreNodes names events (x :: items) names' rest

/-- The entries up to the end of a mapping. -/
inductive ArePairs : Names → List EventKind → List (Node × Node) → Names → List EventKind → Prop where
  | done {names : Names} {rest : List EventKind} : ArePairs names (.mappingEnd :: rest) [] names rest
  | entry {names names₁ names₂ names' : Names} {events events₁ events₂ rest : List EventKind}
      {key value : Node} {entries : List (Node × Node)} (first : IsNode names events key names₁ events₁)
      (second : IsNode names₁ events₁ value names₂ events₂)
      (others : ArePairs names₂ events₂ entries names' rest) :
      ArePairs names events ((key, value) :: entries) names' rest

end

/-- What is read is a node, are items or are entries. -/
lemma are_of_read (fuel : Nat) :
    (∀ names events x names' rest, node fuel names events = some (x, names', rest) →
      IsNode names events x names' rest) ∧
    (∀ names events items names' rest, nodes fuel names events = some (items, names', rest) →
      AreNodes names events items names' rest) ∧
    (∀ names events entries names' rest, pairs fuel names events = some (entries, names', rest) →
      ArePairs names events entries names' rest) := by
  induction fuel with
  | zero => refine ⟨?_, ?_, ?_⟩ <;> intro names events x names' rest reads <;> cases reads
  | succ fuel ih =>
    obtain ⟨one, items, entries⟩ := ih
    refine ⟨fun names events x names' rest reads => ?_, fun names events xs names' rest reads => ?_,
      fun names events xs names' rest reads => ?_⟩
    · unfold node at reads
      split at reads
      · obtain ⟨number, bound, result⟩ := Option.map_eq_some_iff.mp reads
        cases result
        exact .reference bound
      · cases reads
        exact .scalar
      · obtain ⟨⟨inner, names₁, rest₁⟩, within, result⟩ := Option.map_eq_some_iff.mp reads
        cases result
        exact .sequence (items _ _ _ _ _ within)
      · obtain ⟨⟨inner, names₁, rest₁⟩, within, result⟩ := Option.map_eq_some_iff.mp reads
        cases result
        exact .mapping (entries _ _ _ _ _ within)
      · cases reads
    · unfold nodes at reads
      split at reads
      · cases reads
        exact .done
      · obtain ⟨⟨x, names₁, rest₁⟩, first, reads⟩ := Option.bind_eq_some_iff.mp reads
        obtain ⟨⟨xs, names₂, rest₂⟩, others, result⟩ := Option.bind_eq_some_iff.mp reads
        cases result
        exact .item (one _ _ _ _ _ first) (items _ _ _ _ _ others)
    · unfold pairs at reads
      split at reads
      · cases reads
        exact .done
      · obtain ⟨⟨key, names₁, rest₁⟩, first, reads⟩ := Option.bind_eq_some_iff.mp reads
        obtain ⟨⟨value, names₂, rest₂⟩, second, reads⟩ := Option.bind_eq_some_iff.mp reads
        obtain ⟨⟨xs, names₃, rest₃⟩, others, result⟩ := Option.bind_eq_some_iff.mp reads
        cases result
        exact .entry (one _ _ _ _ _ first) (one _ _ _ _ _ second) (entries _ _ _ _ _ others)

mutual

/-- A node consists of events of nodes. -/
lemma IsNode.taken {names names' : Names} {events rest : List EventKind} {x : Node} :
    IsNode names events x names' rest →
      ∃ taken, events = taken ++ rest ∧ taken ≠ [] ∧ taken.all isNodeEvent = true
  | .reference _ => ⟨[_], rfl, by simp, rfl⟩
  | .scalar => ⟨[_], rfl, by simp, rfl⟩
  | .sequence inner =>
    let ⟨taken, eq, _, all⟩ := inner.taken
    ⟨_ :: taken, congrArg _ eq, by simp, all⟩
  | .mapping inner =>
    let ⟨taken, eq, _, all⟩ := inner.taken
    ⟨_ :: taken, congrArg _ eq, by simp, all⟩

lemma AreNodes.taken {names names' : Names} {events rest : List EventKind} {items : List Node} :
    AreNodes names events items names' rest →
      ∃ taken, events = taken ++ rest ∧ taken ≠ [] ∧ taken.all isNodeEvent = true
  | .done => ⟨[_], rfl, by simp, rfl⟩
  | .item first others => by
    obtain ⟨taken, rfl, some_, all⟩ := first.taken
    obtain ⟨more, rfl, -, also⟩ := others.taken
    exact ⟨taken ++ more, (List.append_assoc ..).symm, by simp [some_], by simp [all, also]⟩

lemma ArePairs.taken {names names' : Names} {events rest : List EventKind}
    {entries : List (Node × Node)} : ArePairs names events entries names' rest →
      ∃ taken, events = taken ++ rest ∧ taken ≠ [] ∧ taken.all isNodeEvent = true
  | .done => ⟨[_], rfl, by simp, rfl⟩
  | .entry first second others => by
    obtain ⟨taken, rfl, some_, all⟩ := first.taken
    obtain ⟨more, rfl, -, also⟩ := second.taken
    obtain ⟨still, rfl, -, too⟩ := others.taken
    exact ⟨taken ++ (more ++ still), by simp, by simp [some_], by simp [all, also, too]⟩

end

section Shorter

variable {names names' : Names} {events rest : List EventKind}

lemma length_lt_of_taken
    (takes : ∃ taken, events = taken ++ rest ∧ taken ≠ [] ∧ taken.all isNodeEvent = true) :
    rest.length < events.length := by
  obtain ⟨taken, rfl, some_, -⟩ := takes
  have := List.length_pos_iff.mpr some_
  simp only [List.length_append]
  omega

lemma IsNode.shorter {x : Node} (is : IsNode names events x names' rest) : rest.length < events.length :=
  length_lt_of_taken is.taken

lemma AreNodes.shorter {items : List Node} (are : AreNodes names events items names' rest) :
    rest.length < events.length :=
  length_lt_of_taken are.taken

lemma ArePairs.shorter {entries : List (Node × Node)} (are : ArePairs names events entries names' rest) :
    rest.length < events.length :=
  length_lt_of_taken are.taken

end Shorter

mutual

/-- A node is read with as much fuel as it has events. -/
lemma IsNode.read {names names' : Names} {events rest : List EventKind} {x : Node} {fuel : Nat} :
    IsNode names events x names' rest → events.length ≤ rest.length + fuel →
      node fuel names events = some (x, names', rest) := by
  intro is enough
  obtain ⟨fuel, rfl⟩ : ∃ n, fuel = n + 1 := ⟨fuel - 1, by have := is.shorter; omega⟩
  cases is with
  | reference bound => rw [node, bound]; rfl
  | scalar => rw [node]
  | sequence inner =>
    have within := inner.read (show _ ≤ _ + fuel by simp only [List.length_cons] at enough; omega)
    rw [node]
    simp only [within, Option.map_some]
  | mapping inner =>
    have within := inner.read (show _ ≤ _ + fuel by simp only [List.length_cons] at enough; omega)
    rw [node]
    simp only [within, Option.map_some]

lemma AreNodes.read {names names' : Names} {events rest : List EventKind} {items : List Node}
    {fuel : Nat} : AreNodes names events items names' rest → events.length ≤ rest.length + fuel →
      nodes fuel names events = some (items, names', rest) := by
  intro are enough
  obtain ⟨fuel, rfl⟩ : ∃ n, fuel = n + 1 := ⟨fuel - 1, by have := are.shorter; omega⟩
  cases are with
  | done => rw [nodes]
  | item first others =>
    have := first.shorter
    have := others.shorter
    have one := first.read (show _ ≤ _ + fuel by omega)
    have more := others.read (show _ ≤ _ + fuel by omega)
    unfold nodes
    split
    · cases first
    · simp [one, more]

lemma ArePairs.read {names names' : Names} {events rest : List EventKind}
    {entries : List (Node × Node)} {fuel : Nat} : ArePairs names events entries names' rest →
      events.length ≤ rest.length + fuel →
      pairs fuel names events = some (entries, names', rest) := by
  intro are enough
  obtain ⟨fuel, rfl⟩ : ∃ n, fuel = n + 1 := ⟨fuel - 1, by have := are.shorter; omega⟩
  cases are with
  | done => rw [pairs]
  | entry first second others =>
    have := first.shorter
    have := second.shorter
    have := others.shorter
    have one := first.read (show _ ≤ _ + fuel by omega)
    have two := second.read (show _ ≤ _ + fuel by omega)
    have more := others.read (show _ ≤ _ + fuel by omega)
    unfold pairs
    split
    · cases first
    · simp [one, two, more]

end

/-- Events begin with one node at most. -/
lemma IsNode.unique {names names₁ names₂ : Names} {events rest₁ rest₂ : List EventKind} {x₁ x₂ : Node}
    (is₁ : IsNode names events x₁ names₁ rest₁) (is₂ : IsNode names events x₂ names₂ rest₂) :
    x₁ = x₂ ∧ names₁ = names₂ ∧ rest₁ = rest₂ := by
  have eq := (is₁.read (Nat.le_add_left ..)).symm.trans (is₂.read (Nat.le_add_left ..))
  simpa using eq

mutual

/-- A node does not depend on what stands behind it. -/
lemma IsNode.append {names names' : Names} {events rest : List EventKind} {x : Node}
    (more : List EventKind) :
    IsNode names events x names' rest → IsNode names (events ++ more) x names' (rest ++ more)
  | .reference bound => .reference bound
  | .scalar => .scalar
  | .sequence inner => .sequence (inner.append more)
  | .mapping inner => .mapping (inner.append more)

lemma AreNodes.append {names names' : Names} {events rest : List EventKind} {items : List Node}
    (more : List EventKind) :
    AreNodes names events items names' rest → AreNodes names (events ++ more) items names' (rest ++ more)
  | .done => .done
  | .item first others => .item (first.append more) (others.append more)

lemma ArePairs.append {names names' : Names} {events rest : List EventKind}
    {entries : List (Node × Node)} (more : List EventKind) :
    ArePairs names events entries names' rest →
      ArePairs names (events ++ more) entries names' (rest ++ more)
  | .done => .done
  | .entry first second others => .entry (first.append more) (second.append more) (others.append more)

end

lemma Names.declare_length (names : Names) (anchor : Option String) :
    (names.declare anchor).2.length = names.length + (names.declare anchor).1.toList.length := by
  cases anchor <;> rfl

mutual

/-- As many names are bound by a node as it has nodes with numbers. -/
lemma IsNode.names_length {names names' : Names} {events rest : List EventKind} {x : Node} :
    IsNode names events x names' rest → names'.length = names.length + x.numbered.length
  | .reference _ => rfl
  | .scalar => by simp [Names.declare_length, Node.numbered]
  | .sequence inner => by
    simp [inner.names_length, Names.declare_length, Node.numbered, Nat.add_assoc]
  | .mapping inner => by
    simp [inner.names_length, Names.declare_length, Node.numbered, Nat.add_assoc]

lemma AreNodes.names_length {names names' : Names} {events rest : List EventKind} {items : List Node} :
    AreNodes names events items names' rest →
      names'.length = names.length + (numberedItems items).length
  | .done => rfl
  | .item first others => by
    simp [others.names_length, first.names_length, numberedItems, Nat.add_assoc]

lemma ArePairs.names_length {names names' : Names} {events rest : List EventKind}
    {entries : List (Node × Node)} : ArePairs names events entries names' rest →
      names'.length = names.length + (numberedEntries entries).length
  | .done => rfl
  | .entry first second others => by
    simp [others.names_length, second.names_length, first.names_length, numberedEntries, Nat.add_assoc]

end

/-- A node that binds no name has no nodes with numbers. -/
lemma IsNode.numbered_eq_nil {names : Names} {events rest : List EventKind} {x : Node}
    (is : IsNode names events x names rest) : x.numbered = [] := by
  have := is.names_length
  exact List.eq_nil_of_length_eq_zero (by omega)

end ChartLift.Yaml.Content
