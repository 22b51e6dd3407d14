import ChartLift.Proofs.Rewrite.Match

/-!
# Entries in brackets

A mapping that opens with a brace is known as one (`Reached.flowOf_of_opens`), and its entries are
refused. So where each mapping inside brackets opens with a brace of its own, entries are rewritten
outside of all brackets only (`patchesAt_outside_brackets`). The mapping of a single pair that a flow
sequence holds has no brace of its own: its entry is rewritten, and the bracket behind it is lost
(`patchesAt_of_pair`).
-/

namespace ChartLift.Rewrite

open Text (Bytes)
open Yaml.Layout (Node Entry Tree opensFlow opensWith)

/-- That a collection opens with a bracket: one stands where the collection starts. -/
def OpensWithBracket (source : Bytes) : Node → Prop
  | .sequence span _ _ => source[span.start]? = some 91
  | .mapping span _ _ => source[span.start]? = some 123
  | .scalar _ _ | .alias _ => False

section Flags

variable {source : Bytes} {node mapping : Node} {segments : List Segment} {around : List Node}
  {entry : Entry}

lemma opensFlow_of_bracket {start : Nat} {bracket : UInt8} (here : source[start]? = some bracket)
    (solid : bracket ∉ [32, 9, 13, 10, 38, 33]) : opensFlow source start bracket = true := by
  obtain ⟨short, is⟩ := List.getElem?_eq_some_iff.mp here
  simp only [List.mem_cons, List.not_mem_nil, or_false, not_or] at solid
  rw [opensFlow, List.drop_eq_getElem_cons short, is, opensWith]
  simp [solid]

/-- What is reached from a node that is built is built. -/
lemma Reached.built (h : Reached node segments mapping around entry) (built : node.Built source) :
    mapping.Built source := by
  induction h with
  | entry => exact built
  | value mem _ _ ih =>
    cases built with
    | mapping _ inside => exact ih (inside _ mem)
  | item there _ ih =>
    cases built with
    | sequence inside => exact ih (inside _ (List.mem_of_getElem? there))

/-- A mapping that opens with a brace is known as one. -/
lemma Reached.flowOf_of_opens (h : Reached node segments mapping around entry)
    (built : node.Built source) (opens : OpensWithBracket source mapping) :
    flowOf mapping = true := by
  obtain ⟨span, flow, entries, rfl, -⟩ := h.mem
  cases h.built built with
  | mapping => exact opensFlow_of_bracket opens (by decide)

end Flags

section Text

variable {text : List Char} {tree : Tree} {path : Path}

/-- In the tree of a text a mapping that opens with a brace is known as one. -/
lemma Reaches.flowOf_of_opens {mapping : Node} {around : List Node} {entry : Entry}
    (read : Tree.ofText? text = some tree) (reaches : Reaches tree path mapping around entry)
    (opens : OpensWithBracket (Text.Utf8.encode text) mapping) : flowOf mapping = true := by
  obtain ⟨root, rooted, reached⟩ := reaches
  exact reached.flowOf_of_opens (Yaml.Layout.Tree.built_of_ofText? read rooted) opens

/-- Where each mapping inside brackets opens with a brace of its own, patches are for entries that no
bracketed collection encloses, at any depth; an entry inside brackets is refused, and a path with
such entries only has no patch. -/
theorem patchesAt_outside_brackets (read : Tree.ofText? text = some tree)
    (own : ∀ mapping around entry, Reaches tree path mapping around entry →
      (∃ node ∈ around, OpensWithBracket (Text.Utf8.encode text) node) →
      OpensWithBracket (Text.Utf8.encode text) mapping) :
    (∀ patches, patchesAt tree (Text.Utf8.encode text) path = .ok patches →
      ∀ patch ∈ patches, ∃ mapping around entry colon, Reaches tree path mapping around entry ∧
        (∀ node ∈ mapping :: around, ¬ OpensWithBracket (Text.Utf8.encode text) node) ∧
        entry.indicator = some colon ∧
        patch = entryPatch (Text.Utf8.encode text) path entry colon) ∧
    (∀ mapping around entry, Reaches tree path mapping around entry →
      (∃ node ∈ mapping :: around, OpensWithBracket (Text.Utf8.encode text) node) →
      .error .inFlow ∈ meetings tree (Text.Utf8.encode text) path) ∧
    ((∃ mapping around entry, Reaches tree path mapping around entry) →
      (∀ mapping around entry, Reaches tree path mapping around entry →
        ∃ node ∈ mapping :: around, OpensWithBracket (Text.Utf8.encode text) node) →
      patchesAt tree (Text.Utf8.encode text) path =
        .error (.unpatchable path.canonical .inFlow)) := by
  -- the brackets around an entry show in the flag of the mapping that holds it
  have flagged : ∀ mapping around entry, Reaches tree path mapping around entry →
      (∃ node ∈ mapping :: around, OpensWithBracket (Text.Utf8.encode text) node) →
      flowOf mapping = true := by
    rintro mapping around entry reaches ⟨node, mem, opens⟩
    rcases List.mem_cons.mp mem with rfl | mem
    · exact reaches.flowOf_of_opens read opens
    · exact reaches.flowOf_of_opens read (own mapping around entry reaches ⟨node, mem, opens⟩)
  refine ⟨?_, ?_, ?_⟩
  · intro patches met patch mem
    obtain ⟨entry, colon, visited, known, rfl⟩ := (mem_iff_of_patchesAt met).mp mem
    obtain ⟨mapping, around, reaches, flag⟩ := mem_walk_iff.mp visited
    refine ⟨mapping, around, entry, colon, reaches, ?_, known, rfl⟩
    intro node mem opens
    rw [flagged mapping around entry reaches ⟨node, mem, opens⟩] at flag
    cases flag
  · intro mapping around entry reaches brackets
    have flag := flagged mapping around entry reaches brackets
    have here : (entry, true) ∈ entriesAt tree path :=
      mem_entriesAt_iff.mpr ⟨mapping, around, reaches, flag⟩
    rw [meetings_eq_map (List.ne_nil_of_mem here)]
    exact List.mem_map.mpr ⟨_, here, rfl⟩
  · rintro ⟨mapping, around, entry, reaches⟩ all
    have here : (entry, flowOf mapping) ∈ entriesAt tree path :=
      mem_entriesAt_iff.mpr ⟨mapping, around, reaches, rfl⟩
    have refused : ∀ other ∈ entriesAt tree path,
        meetEntry (Text.Utf8.encode text) path other = .error .inFlow := by
      rintro ⟨entry, flow⟩ mem
      obtain ⟨mapping, around, reaches, flag⟩ := mem_entriesAt_iff.mp mem
      rw [flagged mapping around entry reaches (all mapping around entry reaches)] at flag
      subst flag
      rfl
    obtain ⟨first, rest, entries⟩ := List.exists_cons_of_ne_nil (List.ne_nil_of_mem here)
    rw [entries] at refused
    obtain ⟨first, rest⟩ := List.forall_mem_cons.mp refused
    exact patchesAt_of_entries_refused entries first fun other mem => ⟨_, rest other mem⟩

/-- The path of an entry of a mapping that is the first item of a sequence. -/
def itemPath : Path := ⟨[.field "x", .index 0, .field "a"]⟩

/-- The tree of a flow sequence that holds a flow mapping. -/
def bracedTree : Tree :=
  ⟨some (.mapping ⟨1, 12⟩ false [⟨some "x", ⟨0, 3⟩, some 1, .sequence ⟨3, 12⟩ true
    [.mapping ⟨4, 10⟩ true [⟨some "a", ⟨5, 8⟩, some 6, .scalar ⟨8, 9⟩ "1"⟩]]⟩]), 12⟩

/-- Its text is read to that tree. -/
lemma ofText?_bracedTree : Tree.ofText? "x: [\x7ba: 1\x7d]\n".toList = some bracedTree := by
  rfl

/-- A single entry stands at the path, in a mapping with a brace. -/
lemma opens_bracedTree {mapping : Node} {around : List Node} {entry : Entry}
    (reaches : Reaches bracedTree itemPath mapping around entry) :
    OpensWithBracket (Text.Utf8.encode "x: [\x7ba: 1\x7d]\n".toList) mapping := by
  obtain ⟨root, ⟨⟩, reached⟩ := reaches
  cases reached with
  | value mem named reached =>
    obtain rfl := List.mem_singleton.mp mem
    cases reached with
    | item there reached =>
      cases there
      cases reached with
      | entry => exact rfl
      | value mem _ reached =>
        obtain rfl := List.mem_singleton.mp mem
        cases reached

/-- An entry with braces of its own inside brackets is refused. -/
theorem patchesAt_outside_brackets_braced :
    Tree.ofText? "x: [\x7ba: 1\x7d]\n".toList = some bracedTree ∧
      (∀ mapping around entry, Reaches bracedTree itemPath mapping around entry →
        (∃ node ∈ around, OpensWithBracket (Text.Utf8.encode "x: [\x7ba: 1\x7d]\n".toList) node) →
        OpensWithBracket (Text.Utf8.encode "x: [\x7ba: 1\x7d]\n".toList) mapping) ∧
      patchesAt bracedTree (Text.Utf8.encode "x: [\x7ba: 1\x7d]\n".toList) itemPath =
        .error (.unpatchable itemPath.canonical .inFlow) := by
  have own : ∀ mapping around entry, Reaches bracedTree itemPath mapping around entry →
      (∃ node ∈ around, OpensWithBracket (Text.Utf8.encode "x: [\x7ba: 1\x7d]\n".toList) node) →
      OpensWithBracket (Text.Utf8.encode "x: [\x7ba: 1\x7d]\n".toList) mapping :=
    fun mapping around entry reaches _ => opens_bracedTree reaches
  refine ⟨ofText?_bracedTree, own,
    (patchesAt_outside_brackets ofText?_bracedTree own).2.2 ?_ ?_⟩
  · exact ⟨_, _, _, _, rfl, .value (List.mem_singleton_self _) rfl
      (.item rfl (.entry (List.mem_singleton_self _) rfl))⟩
  · intro mapping around entry reaches
    exact ⟨mapping, List.mem_cons_self .., opens_bracedTree reaches⟩

/-- The tree of a flow sequence that holds a single pair. -/
def pairTree : Tree :=
  ⟨some (.mapping ⟨1, 10⟩ false [⟨some "x", ⟨0, 3⟩, some 1, .sequence ⟨3, 10⟩ true
    [.mapping ⟨6, 8⟩ false [⟨some "a", ⟨4, 7⟩, some 5, .scalar ⟨7, 8⟩ "1"⟩]]⟩]), 10⟩

/-- An entry that a bracketed sequence encloses is rewritten where it is a pair without braces, and
the closing bracket goes with its value. -/
theorem patchesAt_of_pair :
    Tree.ofText? "x: [a: 1]\n".toList = some pairTree ∧
      (∃ mapping around entry, Reaches pairTree itemPath mapping around entry ∧
        ∃ node ∈ around, OpensWithBracket (Text.Utf8.encode "x: [a: 1]\n".toList) node) ∧
      patchesAt pairTree (Text.Utf8.encode "x: [a: 1]\n".toList) itemPath =
        .ok [⟨"$.x[0].a", 6, 10⟩] ∧
      Patch.apply ⟨"$.x[0].a", 6, 10⟩ "k" (Text.Utf8.encode "x: [a: 1]\n".toList) =
        Text.Utf8.encode "x: [a: \x7b\x7b .Values.k \x7d\x7d\n".toList := by
  refine ⟨by rfl, ?_, by decide +kernel, by decide +kernel⟩
  exact ⟨_, _, _, ⟨_, rfl, .value (List.mem_singleton_self _) rfl
    (.item rfl (.entry (List.mem_singleton_self _) rfl))⟩, _, List.mem_cons_self .., rfl⟩

end Text

end ChartLift.Rewrite
