import ChartLift.Proofs.Extraction.Run

/-!
# The turns of a run

Each application of a rule to a document within a run is a `Turn`, placed by the documents and the
rules before it. What holds behind a turn and is kept by deposits holds at the end of the run
(`Turn.Of.keeps`), and its patches are among those of the document that goes out (`Turn.Of.mem_whole`,
`Turn.Of.output`). What a run brings about it brings about in a turn (`Turn.exists_of_applied`,
`Turn.exists_of_stored`); so every patch of a plan comes from one (`Turn.exists_of_planned`).
-/

namespace ChartLift

/-- An application of a rule to a document, within the documents and the rules of a run. -/
structure Turn where
  documentsBefore : List Manifest
  document : Manifest
  decoded : Manifest.Decoded
  tree : Yaml.Layout.Tree
  rulesBefore : List ReadyRule
  rule : ReadyRule

namespace Turn

/-- That a turn is one of a run over documents. -/
structure Of (turn : Turn) (extractor : Extractor) (documents : List Manifest) : Prop where
  document : ∃ rest, documents = turn.documentsBefore ++ turn.document :: rest
  decodes : Extractor.Decodes turn.document turn.decoded
  indexed : turn.decoded.tree? = some turn.tree
  rule : ∃ rest, extractor.rules = turn.rulesBefore ++ turn.rule :: rest
  selects : turn.rule.rule.selects turn.decoded.selector = true

/-- What the earlier documents and, on the same document, the earlier rules lead to. -/
def before (turn : Turn) (extractor : Extractor) (values : ValuesTree) : Extractor.Rewriting :=
  Extractor.applyAll extractor.options turn.document turn.decoded.object turn.tree
    (turn.rulesBefore.filter (·.rule.selects turn.decoded.selector))
    (extractor.treatAll turn.documentsBefore (.ofValues values)).1 .empty

/-- The application that is made in a turn. -/
def application (turn : Turn) (extractor : Extractor) (values : ValuesTree) : Application :=
  Application.run turn.document turn.decoded.object turn.tree turn.rule
    (turn.before extractor values).store (turn.before extractor values).plan

/-- What all rules of a run do to the document of a turn. -/
def whole (turn : Turn) (extractor : Extractor) (values : ValuesTree) : Extractor.Rewriting :=
  Extractor.applyAll extractor.options turn.document turn.decoded.object turn.tree
    (extractor.selecting turn.decoded)
    (extractor.treatAll turn.documentsBefore (.ofValues values)).1 .empty

/-- What is on record behind a turn about its document. -/
def faults (turn : Turn) (extractor : Extractor) (values : ValuesTree) : List Diagnostic :=
  (turn.before extractor values).faults ++
    ((turn.application extractor values).fault.map
      (Extractor.record turn.document turn.rule)).toList

/-- The end of a turn. -/
lemma ends (turn : Turn) (extractor : Extractor) (values : ValuesTree) :
    Application.Ends turn.document turn.decoded.object turn.tree turn.rule
      (turn.before extractor values).store (turn.before extractor values).plan
      (turn.application extractor values).store (turn.application extractor values).plan
      (turn.application extractor values).fault :=
  Application.ends_run

variable {turn other : Turn} {extractor : Extractor} {documents : List Manifest} {values : ValuesTree}
  {after : Store} {fates : List Fate}

open Extractor

/-- A turn is also one of a run over more documents. -/
lemma Of.append (h : turn.Of extractor documents) (more : List Manifest) :
    turn.Of extractor (documents ++ more) := by
  obtain ⟨rest, rfl⟩ := h.document
  exact ⟨⟨rest ++ more, by simp⟩, h.decodes, h.indexed, h.rule, h.selects⟩

lemma Of.getElem?_document (h : turn.Of extractor documents) :
    documents[turn.documentsBefore.length]? = some turn.document := by
  obtain ⟨rest, rfl⟩ := h.document
  rw [List.getElem?_append_right (Nat.le_refl _), Nat.sub_self, List.getElem?_cons_zero]

lemma Of.take_documents (h : turn.Of extractor documents) :
    documents.take turn.documentsBefore.length = turn.documentsBefore := by
  obtain ⟨rest, rfl⟩ := h.document
  exact List.take_left ..

/-- Turns behind the same documents are about the same document, and read it alike. -/
lemma Of.same (h : turn.Of extractor documents) (h' : other.Of extractor documents)
    (here : other.documentsBefore = turn.documentsBefore) :
    other.document = turn.document ∧ other.decoded = turn.decoded ∧ other.tree = turn.tree := by
  have document : other.document = turn.document := by
    have there := h'.getElem?_document
    rw [here, h.getElem?_document] at there
    exact (Option.some.inj there).symm
  have decoded : other.decoded = turn.decoded := by
    have decodes := h'.decodes
    rw [document] at decodes
    exact decodes.unique h.decodes
  refine ⟨document, decoded, ?_⟩
  have indexed := h'.indexed
  rw [decoded, h.indexed] at indexed
  exact (Option.some.inj indexed).symm

/-- A turn is told by the documents and the number of rules before it. -/
lemma Of.ext (h : turn.Of extractor documents) (h' : other.Of extractor documents)
    (here : other.documentsBefore = turn.documentsBefore)
    (place : other.rulesBefore.length = turn.rulesBefore.length) : other = turn := by
  obtain ⟨document, decoded, tree⟩ := h.same h' here
  obtain ⟨rest, split⟩ := h.rule
  obtain ⟨rest', split'⟩ := h'.rule
  obtain ⟨rules, tail⟩ := List.append_inj (split'.symm.trans split) place
  obtain ⟨rule, -⟩ := List.cons.inj tail
  cases turn
  cases other
  cases here
  cases document
  cases decoded
  cases tree
  cases rules
  cases rule
  rfl

/-- In a run over one document only the rules of a turn are open. -/
lemma Of.eq_of_singleton {document : Manifest} {decoded : Manifest.Decoded}
    {tree : Yaml.Layout.Tree} (h : turn.Of extractor [document])
    (decodes : Decodes document decoded) (indexed : decoded.tree? = some tree) :
    turn = ⟨[], document, decoded, tree, turn.rulesBefore, turn.rule⟩ := by
  obtain ⟨earlier, document', decoded', tree', rulesBefore, rule⟩ := turn
  obtain ⟨rest, split⟩ := h.document
  obtain ⟨rfl, rfl, -⟩ : earlier = [] ∧ document' = document ∧ rest = [] := by
    simpa [List.append_eq_cons_iff] using split.symm
  obtain rfl : decoded' = decoded := h.decodes.unique decodes
  obtain rfl : tree' = tree := Option.some.inj (h.indexed.symm.trans indexed)
  rfl

lemma Of.selecting_eq (h : turn.Of extractor documents) :
    ∃ rest, extractor.selecting turn.decoded =
      turn.rulesBefore.filter (·.rule.selects turn.decoded.selector) ++ turn.rule :: rest := by
  obtain ⟨rules, split⟩ := h.rule
  refine ⟨rules.filter (·.rule.selects turn.decoded.selector), ?_⟩
  simp only [selecting, split, List.filter_append, List.filter_cons, h.selects, ↓reduceIte]

/-- All rules are applied as those before a turn, the rule of the turn, and the others. -/
lemma Of.within (h : turn.Of extractor documents) (values : ValuesTree) :
    ∃ rules later,
      Applied turn.document turn.decoded.object turn.tree rules
        (turn.application extractor values).store (turn.application extractor values).plan
        (turn.whole extractor values).store (turn.whole extractor values).plan later ∧
      (turn.whole extractor values).faults = turn.faults extractor values ++ later := by
  obtain ⟨rules, chosen⟩ := h.selecting_eq
  have applied : Applied turn.document turn.decoded.object turn.tree
      (extractor.selecting turn.decoded) _ _ (turn.whole extractor values).store
      (turn.whole extractor values).plan (turn.whole extractor values).faults :=
    (applied_iff extractor.options).mpr ⟨rfl, rfl, rfl⟩
  rw [chosen, List.append_cons] at applied
  obtain ⟨_, _, first, later, onward, behind, faults⟩ := applied_append_iff.mp applied
  obtain ⟨_, _, _, _, ahead, here, rfl⟩ := applied_append_iff.mp onward
  obtain ⟨rfl, rfl, rfl⟩ := (applied_iff extractor.options).mp ahead
  obtain ⟨_, ends, rfl⟩ := applied_singleton_iff.mp here
  obtain ⟨rfl, rfl, rfl⟩ := Application.ends_iff.mp ends
  exact ⟨rules, later, behind, faults⟩

/-- A run goes on behind a turn with the later rules and then with the later documents. -/
lemma Of.course (h : turn.Of extractor documents)
    (runs : Runs extractor documents (.ofValues values) after fates) :
    ∃ rules rest store plan faults fates',
      Applied turn.document turn.decoded.object turn.tree rules
        (turn.application extractor values).store (turn.application extractor values).plan
        store plan faults ∧
      Runs extractor rest store after fates' := by
  obtain ⟨rules, later, behind, -⟩ := h.within values
  obtain ⟨_, chosen⟩ := h.selecting_eq
  obtain ⟨rest, rfl⟩ := h.document
  obtain ⟨start, fates₁, fates₂, earlier, onward, rfl⟩ := runs_append_iff.mp runs
  obtain ⟨rfl, -⟩ := runs_iff.mp earlier
  cases onward with
  | cons treats runs' =>
    have busy : extractor.selecting turn.decoded ≠ [] := by simp [chosen]
    obtain ⟨_, _, applied, rfl⟩ := treats.rewritten_of_decodes h.decodes busy h.indexed
    obtain ⟨rfl, -, -⟩ := (applied_iff extractor.options).mp applied
    exact ⟨rules, rest, (turn.whole extractor values).store, _, later, _, behind, runs'⟩

/-- The patches that a turn has planned are among those of its document. -/
lemma Of.mem_whole (h : turn.Of extractor documents) {entry : Rewrite.Patch × String}
    (mem : entry ∈ (turn.application extractor values).plan.entries) :
    entry ∈ (turn.whole extractor values).plan.entries := by
  obtain ⟨rules, later, behind, -⟩ := h.within values
  exact behind.prefix_entries.subset mem

/-- What becomes of the document of a turn. -/
lemma Of.fate (h : turn.Of extractor documents)
    (runs : Runs extractor documents (.ofValues values) after fates) :
    let whole := turn.whole extractor values
    let diagnostics := whole.faults.filter (!extractor.isWarning ·)
    fates[turn.documentsBefore.length]? = some ⟨rewrite turn.document whole.plan,
      .rewritten whole.plan.size diagnostics.length, diagnostics,
      whole.faults.filter extractor.isWarning⟩ := by
  obtain ⟨middle, fate, there, treats⟩ := runs.treats h.getElem?_document
  obtain ⟨rest, chosen⟩ := h.selecting_eq
  have busy : extractor.selecting turn.decoded ≠ [] := by simp [chosen]
  obtain ⟨plan, faults, applied, rfl⟩ := treats.rewritten_of_decodes h.decodes busy h.indexed
  rw [h.take_documents] at applied
  obtain ⟨rfl, rfl, rfl⟩ := (applied_iff extractor.options).mp applied
  exact there

/-- The document of a turn goes out with all its patches applied. -/
lemma Of.output (h : turn.Of extractor documents) (values : ValuesTree) :
    (extractor.run documents values).documents[turn.documentsBefore.length]? =
      some ⟨turn.document.name, (turn.whole extractor values).plan.apply turn.document.raw⟩ := by
  obtain ⟨after, fates, runs⟩ := exists_runs extractor documents values
  rw [(run_of_runs runs).1, List.getElem?_map, h.fate runs, Option.map_some, rewrite_eq]

/-- What holds of the store behind a turn and is kept by deposits holds at the end of the run. -/
lemma Of.keeps {P : Store → Prop}
    (keeps : ∀ {store after key literal document}, P store →
      store.Puts key literal document after → P after)
    (h : turn.Of extractor documents)
    (runs : Runs extractor documents (.ofValues values) after fates)
    (start : P (turn.application extractor values).store) : P after := by
  obtain ⟨_, _, _, _, _, _, behind, rest⟩ := h.course runs
  exact rest.keeps keeps (behind.keeps keeps start)

/-- What the rules of a run bring about for a document is brought about in a turn. -/
lemma exists_of_applied {P : Store → Rewrite.Plan → List Diagnostic → Prop} {i : Nat}
    {document : Manifest} {decoded : Manifest.Decoded} {tree : Yaml.Layout.Tree}
    {plan : Rewrite.Plan} {faults : List Diagnostic} (here : documents[i]? = some document)
    (decodes : Decodes document decoded) (indexed : decoded.tree? = some tree)
    (applied : Applied document decoded.object tree (extractor.selecting decoded)
      (extractor.treatAll (documents.take i) (.ofValues values)).1 .empty after plan faults)
    (fresh : ¬ P (extractor.treatAll (documents.take i) (.ofValues values)).1 .empty [])
    (holds : P after plan faults) :
    ∃ turn : Turn, turn.Of extractor documents ∧ turn.documentsBefore = documents.take i ∧
      turn.document = document ∧
      ¬ P (turn.before extractor values).store (turn.before extractor values).plan
        (turn.before extractor values).faults ∧
      P (turn.application extractor values).store (turn.application extractor values).plan
        (turn.faults extractor values) := by
  obtain ⟨first, rule, rest, middle, between, _, _, _, _, split, ahead, ends, step⟩ :=
    applied.exists_step fresh holds
  -- the rules applied before are those about the document among the first of all rules
  obtain ⟨rules₁, rules₂, rules, rfl, onward⟩ := List.filter_eq_append_iff.mp split
  obtain ⟨idle, rules₃, rfl, unselected, selects, rfl⟩ := List.filter_eq_cons_iff.mp onward
  obtain ⟨short, is⟩ := List.getElem?_eq_some_iff.mp here
  let turn : Turn := ⟨documents.take i, document, decoded, tree, rules₁ ++ idle, rule⟩
  have selected : (rules₁ ++ idle).filter (·.rule.selects decoded.selector) =
      rules₁.filter (·.rule.selects decoded.selector) := by
    rw [List.filter_append, List.filter_eq_nil_iff.mpr unselected, List.append_nil]
  obtain ⟨rfl, rfl, rfl⟩ := (applied_iff extractor.options).mp ahead
  obtain ⟨rfl, rfl, rfl⟩ := Application.ends_iff.mp ends
  refine ⟨turn, ⟨⟨documents.drop (i + 1), ?_⟩, decodes, indexed, ⟨rules₃, ?_⟩, selects⟩, rfl, rfl,
    ?_⟩
  · show documents = documents.take i ++ document :: documents.drop (i + 1)
    rw [← is, ← List.drop_eq_getElem_cons short, List.take_append_drop]
  · rw [rules, List.append_assoc]
  · simpa only [application, before, Turn.faults, turn, selected] using step

/-- What does not hold of the store before a run and does behind it, a turn brings about. -/
lemma exists_of_stored {P : Store → Prop}
    (runs : Runs extractor documents (.ofValues values) after fates)
    (fresh : ¬ P (.ofValues values)) (holds : P after) :
    ∃ turn : Turn, turn.Of extractor documents ∧ ¬ P (turn.before extractor values).store ∧
      P (turn.application extractor values).store := by
  obtain ⟨i, document, middle, fate, here, treats, fresh, holds⟩ := runs.exists_treats fresh holds
  cases treats with
  | skipped => exact absurd holds fresh
  | undecodable => exact absurd holds fresh
  | unmatched => exact absurd holds fresh
  | unindexed => exact absurd holds fresh
  | rewritten decodes _ indexed applied =>
    obtain ⟨turn, of, -, -, step⟩ := exists_of_applied (P := fun store _ _ => P store) here decodes
      indexed applied fresh holds
    exact ⟨turn, of, step⟩

/-- Every patch that is planned for a document comes from a turn without a fault. -/
lemma exists_of_planned {i : Nat} {document : Manifest} {decoded : Manifest.Decoded}
    {tree : Yaml.Layout.Tree} {plan : Rewrite.Plan} {faults : List Diagnostic}
    {entry : Rewrite.Patch × String} (here : documents[i]? = some document)
    (decodes : Decodes document decoded) (indexed : decoded.tree? = some tree)
    (applied : Applied document decoded.object tree (extractor.selecting decoded)
      (extractor.treatAll (documents.take i) (.ofValues values)).1 .empty after plan faults)
    (mem : entry ∈ plan.entries) :
    ∃ turn : Turn, turn.Of extractor documents ∧ turn.documentsBefore = documents.take i ∧
      turn.document = document ∧ (turn.application extractor values).fault = none ∧
      Application.Plans document turn.decoded.object turn.tree turn.rule entry := by
  obtain ⟨turn, of, before, rfl, fresh, here⟩ := exists_of_applied
    (P := fun _ plan _ => entry ∈ plan.entries) here decodes indexed applied List.not_mem_nil mem
  obtain ⟨fine, plans⟩ := ((turn.ends extractor values).planned_of_mem here).resolve_left fresh
  exact ⟨turn, of, before, rfl, fine, plans⟩

end Turn

/-! ## A small document -/

namespace Manifest

/-- A document with two fields besides its type. -/
def ofFields (name a b : String) : Manifest :=
  ⟨name, Text.bytes ("apiVersion: v1\nkind: A\na: " ++ a ++ "\nb: " ++ b ++ "\n")⟩

/-- Such a document. -/
def small : Manifest := ofFields "a.yaml" "x" "y"

/-- What the small document decodes to. -/
@[irreducible] def small.decoded : Decoded := small.decode.toOption.get (by decide +kernel)

/-- The layout tree of the small document. -/
@[irreducible] def small.tree : Yaml.Layout.Tree := small.decoded.tree?.get (by decide +kernel)

lemma small.decodes : Extractor.Decodes small small.decoded := by
  rw [small.decoded]
  exact .of_isSome (by decide +kernel) _

lemma small.indexed : small.decoded.tree? = some small.tree := by
  rw [small.tree, Option.some_get]

end Manifest

/-- A document that decodes and has a layout tree. -/
structure Readable where
  document : Manifest
  decoded : Manifest.Decoded
  tree : Yaml.Layout.Tree
  decodes : Extractor.Decodes document decoded
  indexed : decoded.tree? = some tree

/-- A document with what it is read to. -/
def Readable.of (document : Manifest) (considered : Extractor.skipReason? document = none)
    (ok : document.decode.toOption.isSome = true)
    (indexed : (document.decode.toOption.get ok).tree?.isSome = true) : Readable :=
  ⟨document, document.decode.toOption.get ok, (document.decode.toOption.get ok).tree?.get indexed,
    .of_isSome considered ok, (Option.some_get _).symm⟩

lemma exists_of_isSome_toOption {ε α : Type} {result : Except ε α}
    (h : result.toOption.isSome = true) : ∃ a, result = .ok a := by
  cases result with
  | error fault => cases h
  | ok a => exact ⟨a, rfl⟩

/-- A value is located where the place and the text of what is located are known. -/
lemma exists_located (object : Value) (path place : Path) (text : String)
    (h : (object.locate path).toOption.map (fun found => (found.1, found.2.render)) =
      some (place, text)) :
    ∃ value, object.locate path = .ok (place, value) ∧ value.render = text := by
  cases located : object.locate path with
  | error fault => rw [located] at h; cases h
  | ok found => rw [located] at h; cases h; exact ⟨found.2, rfl, rfl⟩

/-- A rule that moves a field of documents with two fields. -/
def Rule.ofField (field key : String) : Rule := ⟨"v1", "A", "$." ++ field, key⟩

/-- The rule with its path and its template, for plain names. -/
def ReadyRule.ofField (field key : String) : ReadyRule :=
  ⟨.ofField field key, ⟨[.field field]⟩, ⟨key, [.text key]⟩⟩

end ChartLift
