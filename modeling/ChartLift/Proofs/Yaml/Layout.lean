import ChartLift.Yaml.Layout.Node
import Mathlib.Tactic.Lemma

/-!
# Entries of layout trees

What a text is read to is built from its bytes, node by node (`Tree.built_of_ofText?`). A property of
entries holds at every depth of such a tree if it holds of each entry as the building makes it
(`Node.Built.everywhere`). One such property is that a recorded indicator is the offset of a `:`
(`Node.Built.colon`).
-/

namespace ChartLift.Yaml.Layout

open Text (Bytes)

/-! ## Indicators -/

/-- What is found within a line is a `:`. -/
lemma colonIn_eq_some {bytes : Bytes} {n : Nat} (h : colonIn bytes = some n) :
    bytes[n]? = some 58 := by
  induction bytes generalizing n with
  | nil => cases h
  | cons b rest ih =>
    rw [colonIn] at h
    split at h
    · cases h
    · split at h
      · next found =>
        cases h
        have colon := (Bool.and_eq_true_iff.mp found).1
        rw [List.getElem?_cons_zero, beq_iff_eq.mp colon]
      · obtain ⟨m, found, rfl⟩ := Option.map_eq_some_iff.mp h
        rw [List.getElem?_cons_succ]
        exact ih found

/-- What is found behind a key is a `:` of the source. -/
lemma findIndicator_eq_some {source : Bytes} {start c : Nat}
    (h : findIndicator source start = some c) : source[c]? = some 58 := by
  rw [findIndicator] at h
  obtain ⟨n, found, rfl⟩ := Option.map_eq_some_iff.mp h
  have colon := colonIn_eq_some found
  rwa [List.getElem?_drop, List.getElem?_drop, ← Nat.add_assoc, Nat.add_comm] at colon

/-- No line ends before what is found within a line. -/
lemma ne_feed_of_colonIn {bytes : Bytes} {n i : Nat} (h : colonIn bytes = some n) (before : i < n) :
    bytes[i]? ≠ some 10 := by
  induction bytes generalizing n i with
  | nil => cases h
  | cons b rest ih =>
    rw [colonIn] at h
    split at h
    · cases h
    · next solid =>
      split at h
      · cases h
        omega
      · obtain ⟨m, found, rfl⟩ := Option.map_eq_some_iff.mp h
        cases i with
        | zero =>
          intro feed
          obtain rfl : b = 10 := Option.some.inj feed
          exact solid rfl
        | succ i =>
          rw [List.getElem?_cons_succ]
          exact ih found (by omega)

/-- Where the search for the `:` of a key begins: where the key starts, or behind its closing quote. -/
def keyStop (source : Bytes) (start : Nat) : Nat :=
  start + match source.drop start with
    | 34 :: rest => quotedLength true rest + 1
    | 39 :: rest => quotedLength false rest + 1
    | _ => 0

lemma findIndicator_eq (source : Bytes) (start : Nat) : findIndicator source start =
    (colonIn (source.drop (keyStop source start))).map (· + keyStop source start) := by
  rw [keyStop, ← List.drop_drop]
  rfl

/-- The `:` behind a key stands on the line on which the key ends. -/
lemma sameLine_of_findIndicator {source : Bytes} {start c : Nat}
    (h : findIndicator source start = some c) : keyStop source start ≤ c ∧
      ∀ i, keyStop source start ≤ i → i < c → source[i]? ≠ some 10 := by
  rw [findIndicator_eq] at h
  obtain ⟨n, found, rfl⟩ := Option.map_eq_some_iff.mp h
  refine ⟨Nat.le_add_left _ _, fun i behind before => ?_⟩
  have inside := ne_feed_of_colonIn found (i := i - keyStop source start) (by omega)
  rwa [List.getElem?_drop, Nat.add_sub_cancel' behind] at inside

/-! ## Trees that are built -/

/-- A node as it is built from a source: the flag of a collection tells whether a bracket stands
where it starts, and the `:` of an entry is looked for behind its key. -/
inductive Node.Built (source : Bytes) : Node → Prop where
  | scalar {span text} :
    Built source (.scalar span text)
  | alias {span} :
    Built source (.alias span)
  | sequence {span} {items : List Node} :
    (∀ item ∈ items, Built source item) →
    Built source (.sequence span (opensFlow source span.start 91) items)
  | mapping {span} {entries : List Entry} :
    (∀ entry ∈ entries,
      entry.indicator = entry.key.bind fun _ => findIndicator source entry.keySpan.start) →
    (∀ entry ∈ entries, Built source entry.value) →
    Built source (.mapping span (opensFlow source span.start 123) entries)

/-- An open collection that has been built so far. -/
def Frame.Built (source : Bytes) : Frame → Prop
  | .sequence _ items => ∀ item ∈ items, item.Built source
  | .mapping _ entries _ => ∀ entry ∈ entries,
    (entry.indicator = entry.key.bind fun _ => findIndicator source entry.keySpan.start) ∧
      entry.value.Built source

variable {source : Bytes}

/-- An open collection stays built with one more node that is. -/
lemma Frame.Built.add {frame : Frame} {node : Node} (good : frame.Built source)
    (fine : node.Built source) : (frame.add source node).Built source := by
  cases frame with
  | sequence start items =>
    intro item mem
    rcases List.mem_cons.mp mem with rfl | mem
    · exact fine
    · exact good item mem
  | mapping start entries key =>
    cases key with
    | none => exact good
    | some key =>
      intro entry mem
      rcases List.mem_cons.mp mem with rfl | mem
      · exact ⟨rfl, fine⟩
      · exact good entry mem

lemma Frame.Built.sequence {start : Nat} {items : List Node} (stop : Nat)
    (good : (Frame.sequence start items).Built source) :
    (Node.sequence ⟨start, stop⟩ (opensFlow source start 91) items.reverse).Built source :=
  @Node.Built.sequence source ⟨start, stop⟩ _ fun item mem => good item (List.mem_reverse.mp mem)

lemma Frame.Built.mapping {start : Nat} {entries : List Entry} (stop : Nat)
    (good : (Frame.mapping start entries none).Built source) :
    (Node.mapping ⟨start, stop⟩ (opensFlow source start 123) entries.reverse).Built source :=
  @Node.Built.mapping source ⟨start, stop⟩ _
    (fun entry mem => (good entry (List.mem_reverse.mp mem)).1)
    fun entry mem => (good entry (List.mem_reverse.mp mem)).2

/-- What events complete is built. -/
lemma Node.built_of_build {frames : List Frame} {events rest : List Located} {node : Node}
    (good : ∀ frame ∈ frames, frame.Built source)
    (h : build source frames events = some (node, rest)) : node.Built source := by
  -- the open collections stay built, so that a collection is when it is closed
  fun_induction build source frames events with
  | case1 => cases h
  | case2 => cases h; exact .scalar
  | case3 event events span text style tag anchor frame outer kind ih =>
    obtain ⟨here, outside⟩ := List.forall_mem_cons.mp good
    exact ih (List.forall_mem_cons.mpr ⟨here.add .scalar, outside⟩) h
  | case4 => cases h; exact .alias
  | case5 event events span name frame outer kind ih =>
    obtain ⟨here, outside⟩ := List.forall_mem_cons.mp good
    exact ih (List.forall_mem_cons.mpr ⟨here.add .alias, outside⟩) h
  | case6 event events tag anchor frames kind ih =>
    exact ih (List.forall_mem_cons.mpr ⟨List.forall_mem_nil _, good⟩) h
  | case7 event events tag anchor frames kind ih =>
    exact ih (List.forall_mem_cons.mpr ⟨List.forall_mem_nil _, good⟩) h
  | case8 =>
    obtain ⟨rfl, rfl⟩ := Prod.mk.inj (Option.some.inj h)
    obtain ⟨closed, _⟩ := List.forall_mem_cons.mp good
    exact closed.sequence _
  | case9 event events span start items kind node frame outer ih =>
    obtain ⟨closed, outside⟩ := List.forall_mem_cons.mp good
    obtain ⟨here, outside⟩ := List.forall_mem_cons.mp outside
    exact ih (List.forall_mem_cons.mpr ⟨here.add (closed.sequence _), outside⟩) h
  | case10 =>
    obtain ⟨rfl, rfl⟩ := Prod.mk.inj (Option.some.inj h)
    obtain ⟨closed, _⟩ := List.forall_mem_cons.mp good
    exact closed.mapping _
  | case11 event events span start entries kind node frame outer ih =>
    obtain ⟨closed, outside⟩ := List.forall_mem_cons.mp good
    obtain ⟨here, outside⟩ := List.forall_mem_cons.mp outside
    exact ih (List.forall_mem_cons.mpr ⟨here.add (closed.mapping _), outside⟩) h
  | case12 => cases h

/-- The root of the tree of events is built. -/
lemma Tree.built_of_ofEvents? {events : List Located} {tree : Tree} {root : Node}
    (h : Tree.ofEvents? source events = some tree) (rooted : tree.root = some root) :
    root.Built source := by
  rw [ofEvents?] at h
  split at h
  · cases h; cases rooted
  · split at h
    · cases h; cases rooted
    · obtain ⟨⟨node, rest⟩, built, rfl⟩ := Option.map_eq_some_iff.mp h
      cases rooted
      exact Node.built_of_build (List.forall_mem_nil _) built

/-- The root of the tree of a text is built from the bytes of the text. -/
lemma Tree.built_of_ofText? {text : List Char} {tree : Tree} {root : Node}
    (h : Tree.ofText? text = some tree) (rooted : tree.root = some root) :
    root.Built (Text.Utf8.encode text) := by
  obtain ⟨events, _, h⟩ := Option.bind_eq_some_iff.mp h
  exact Tree.built_of_ofEvents? h rooted

/-! ## Properties of all entries -/

/-- A property that the entries of a node have at every depth. -/
inductive Node.Everywhere (P : Entry → Prop) : Node → Prop where
  | scalar {span text} :
    Everywhere P (.scalar span text)
  | alias {span} :
    Everywhere P (.alias span)
  | sequence {span flow} {items : List Node} :
    (∀ item ∈ items, Everywhere P item) →
    Everywhere P (.sequence span flow items)
  | mapping {span flow} {entries : List Entry} :
    (∀ entry ∈ entries, P entry) →
    (∀ entry ∈ entries, Everywhere P entry.value) →
    Everywhere P (.mapping span flow entries)

lemma Node.Everywhere.imp {P Q : Entry → Prop} {node : Node} (all : node.Everywhere P)
    (each : ∀ entry, P entry → Q entry) : node.Everywhere Q := by
  induction all with
  | scalar => exact .scalar
  | «alias» => exact .alias
  | sequence _ ih => exact .sequence ih
  | mapping here _ ih => exact .mapping (fun entry mem => each entry (here entry mem)) ih

/-- A property of each entry as it is made holds everywhere in a node that is built. -/
lemma Node.Built.everywhere {P : Entry → Prop} {node : Node} (built : node.Built source)
    (made : ∀ entry : Entry,
      (entry.indicator = entry.key.bind fun _ => findIndicator source entry.keySpan.start) →
        P entry) :
    node.Everywhere P := by
  induction built with
  | scalar => exact .scalar
  | «alias» => exact .alias
  | sequence _ ih => exact .sequence ih
  | mapping here _ ih => exact .mapping (fun entry mem => made entry (here entry mem)) ih

/-- The recorded indicator of an entry, if there is one, is the offset of a `:`. -/
def Colon (source : Bytes) (entry : Entry) : Prop :=
  ∀ c, entry.indicator = some c → source[c]? = some 58

/-- In a node that is built every recorded indicator is the offset of a `:`. -/
lemma Node.Built.colon {node : Node} (built : node.Built source) :
    node.Everywhere (Colon source) := by
  refine built.everywhere fun entry made c recorded => ?_
  rw [made] at recorded
  obtain ⟨name, _, found⟩ := Option.bind_eq_some_iff.mp recorded
  exact findIndicator_eq_some found

end ChartLift.Yaml.Layout
