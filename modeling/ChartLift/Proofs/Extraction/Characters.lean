import ChartLift.Proofs.Extraction.References

/-!
# Characters of rewritten documents

The bytes of an entry that give way begin behind a `:` or a space and end where a line starts or the
source ends (`Rewrite.fits_entryPatch`), so that a patch cuts between characters
(`Rewrite.Patch.Fits.between`). Patches that do not overlap are applied from the last one to the
first; in front of the last cut everything is as it came, and behind it stands a text
(`Rewrite.exists_encode_foldl`). So a document that is a text is a text after a run
(`Extractor.run_document_text`).
-/

namespace ChartLift

namespace Rewrite

open Text (Bytes)
open Yaml.Layout (Entry)

/-! ## Patches of entries -/

/-- That a patch cuts behind a `:` or a space and where the source ends or a line starts. Where it
takes nothing, it stands at the end of the source. -/
structure Patch.Fits (source : Bytes) (patch : Patch) : Prop where
  kept : source[patch.keep]? = some 58 ∨ source[patch.keep]? = some 32
  ordered : patch.keep + 1 ≤ patch.resume
  inside : patch.resume ≤ source.length
  stop : patch.resume = source.length ∨ source[patch.resume - 1]? = some 10
  nonempty : patch.keep + 1 < patch.resume ∨ patch.keep + 1 = source.length

/-- Nothing gives way behind a `:` that is the last byte. -/
lemma entrySpan_of_last {source : Bytes} {entry : Entry} {colon : Nat}
    (last : colon + 1 = source.length) :
    entrySpan source entry colon = (colon, source.length) := by
  have inline : beginsInline source colon = false := by
    rw [beginsInline, last, List.drop_length]
    rfl
  have floor : min (lineEnd source colon + 1) source.length = source.length := by
    have : colon ≤ lineEnd source colon := Nat.le_add_right ..
    omega
  rw [entrySpan_eq entry (by omega)]
  simp only [inline, floor, ↓reduceIte, Bool.false_and, Bool.false_eq_true, Prod.mk.injEq, true_and]
  obtain ⟨boundary, inside⟩ := @boundary_next source entry.value.span.stop
  have := (boundary_triviaStart source.length
    (entry.keySpan.start - lineStart source entry.keySpan.start) boundary).2
  exact Nat.max_eq_right (Nat.le_trans this inside)

lemma fits_entryPatch {source : Bytes} {path : Path} {entry : Entry} {colon : Nat}
    (mark : source[colon]? = some 58) : (entryPatch source path entry colon).Fits source := by
  obtain ⟨short, -⟩ := List.getElem?_eq_some_iff.mp mark
  rcases Nat.lt_or_ge (colon + 1) source.length with more | last
  · have span : Span source colon (entrySpan source entry colon).1
        (entrySpan source entry colon).2 := span_entrySpan mark more
    refine ⟨?_, Nat.le_of_lt span.nonempty, span.inside, span.stop, .inl span.nonempty⟩
    rcases span.kept with kept | ⟨kept, space⟩
    · exact .inl ((congrArg (source[·]?) kept).trans mark)
    · exact .inr ((congrArg (source[·]?) kept).trans space)
  · have last : colon + 1 = source.length := by omega
    rw [entryPatch, entrySpan_of_last last]
    exact ⟨.inl mark, Nat.le_of_eq last, Nat.le_refl _, .inl rfl, .inr last⟩

variable {text : List Char} {a b patch : Patch}

/-- A patch cuts between characters. -/
lemma Patch.Fits.between (fits : patch.Fits (Text.Utf8.encode text)) :
    Text.Utf8.Between text (patch.keep + 1) ∧ Text.Utf8.Between text patch.resume := by
  constructor
  · rcases fits.kept with colon | space
    · exact Text.Utf8.between_succ colon (by decide)
    · exact Text.Utf8.between_succ space (by decide)
  · rcases fits.stop with whole | feed
    · exact whole ▸ Text.Utf8.between_length text
    · have := fits.ordered
      have behind := Text.Utf8.between_succ feed (by decide)
      rwa [Nat.sub_add_cancel (by omega)] at behind

/-- Of two patches that do not overlap, the one that begins first resumes before the other. -/
lemma Patch.Fits.resume_le {source : Bytes} (fits : a.Fits source) (other : b.Fits source)
    (apart : a.overlaps b = false) (behind : b.keep ≤ a.keep) : b.resume ≤ a.keep + 1 := by
  have := fits.ordered
  have := fits.nonempty
  have := other.ordered
  have := other.inside
  rw [Bool.eq_false_iff, overlaps, ne_eq, Bool.and_eq_true, decide_eq_true_eq, decide_eq_true_eq,
    Patch.first, Patch.first, Patch.stop, Patch.stop] at apart
  omega

/-! ## Rewritten texts -/

/-- A patch below all bytes that have moved finds its own bytes unmoved. -/
lemma Patch.Fits.apply_take_append {source tail : Bytes} {m : Nat} (fits : patch.Fits source)
    (below : patch.resume ≤ m) (inside : m ≤ source.length) (key : String) :
    patch.apply key (source.take m ++ tail) = source.take (patch.keep + 1) ++
      ((if source[patch.keep]? = some 58 then [32] else []) ++
        Text.bytes (referenceExpression key) ++ ((source.take m).drop patch.resume ++ tail)) := by
  have := fits.ordered
  have length : (source.take m).length = m := List.length_take_of_le inside
  generalize data : source.take m ++ tail = grown
  have long : m ≤ grown.length := by
    rw [← data, List.length_append, length]
    exact Nat.le_add_right ..
  have filled : grown.isEmpty = false := by
    cases grown with
    | nil => simp only [List.length_nil] at long; omega
    | cons b rest => rfl
  have keep : min patch.keep (grown.length - 1) = patch.keep := by omega
  have resume : min (max patch.resume (patch.keep + 1)) grown.length = patch.resume := by omega
  have here : grown[patch.keep]? = source[patch.keep]? := by
    rw [← data, List.getElem?_append_left (by omega), List.getElem?_take_of_lt (by omega)]
  have front : grown.take (patch.keep + 1) = source.take (patch.keep + 1) := by
    rw [← data, List.take_append_of_le_length (by omega), List.take_take,
      Nat.min_eq_left (by omega)]
  have back : grown.drop patch.resume = (source.take m).drop patch.resume ++ tail := by
    rw [← data, List.drop_append_of_le_length (by omega)]
  simp only [apply, filled, keep, resume, here, front, back, Bool.false_eq_true, ↓reduceIte,
    List.append_assoc]

/-- A document of which the first bytes come from a text, with a text behind them, is a text after
patches of the first bytes have been applied, from the last one to the first. -/
lemma exists_encode_foldl {entries : List (Patch × String)} {m : Nat} {tail : List Char}
    (fits : ∀ entry ∈ entries, entry.1.Fits (Text.Utf8.encode text))
    (descending : entries.Pairwise fun a b => b.1.resume ≤ a.1.keep + 1)
    (below : ∀ entry ∈ entries, entry.1.resume ≤ m) (between : Text.Utf8.Between text m) :
    ∃ rewritten, entries.foldl (fun data entry => entry.1.apply entry.2 data)
      ((Text.Utf8.encode text).take m ++ Text.Utf8.encode tail) = Text.Utf8.encode rewritten := by
  induction entries generalizing m tail with
  | nil =>
    obtain ⟨front, rest, rfl, rfl⟩ := between
    refine ⟨front ++ tail, ?_⟩
    rw [Text.Utf8.encode_append front rest, List.take_left, Text.Utf8.encode_append]
    rfl
  | cons entry rest ih =>
    obtain ⟨patch, key⟩ := entry
    obtain ⟨before, descending⟩ := List.pairwise_cons.mp descending
    obtain ⟨here, others⟩ := List.forall_mem_cons.mp fits
    have resume : patch.resume ≤ m := below _ List.mem_cons_self
    have inside : m ≤ (Text.Utf8.encode text).length := between.le_length
    obtain ⟨first, last⟩ := here.between
    obtain ⟨kept, slice⟩ := last.exists_slice between resume
    obtain ⟨space, spaced⟩ : ∃ space : List Char,
        (if (Text.Utf8.encode text)[patch.keep]? = some 58 then [32] else []) =
          Text.Utf8.encode space := by
      split
      · exact ⟨[' '], rfl⟩
      · exact ⟨[], rfl⟩
    rw [List.foldl_cons, here.apply_take_append resume inside, slice, spaced, Text.bytes,
      ← Text.Utf8.encode_append, ← Text.Utf8.encode_append, ← Text.Utf8.encode_append]
    exact ih others descending before first

namespace Plan

/-- Patches of entries that do not overlap make a text of a text. -/
lemma exists_encode_apply {plan : Plan} (disjoint : plan.Disjoint)
    (fits : ∀ entry ∈ plan.entries, entry.1.Fits (Text.Utf8.encode text)) :
    ∃ rewritten, plan.apply (Text.Utf8.encode text) = Text.Utf8.encode rewritten := by
  have fits (entry : Patch × String) (mem : entry ∈ plan.descending) :
      entry.1.Fits (Text.Utf8.encode text) := fits entry (plan.descending_perm.mem_iff.mp mem)
  have apart : plan.descending.Pairwise fun a b => a.1.overlaps b.1 = false :=
    (plan.descending_perm.pairwise_iff fun h => by rwa [Patch.overlaps_comm]).mpr disjoint
  have descending : plan.descending.Pairwise fun a b => b.1.resume ≤ a.1.keep + 1 :=
    (plan.descending_keep.and apart).imp_of_mem fun memA memB h =>
      (fits _ memA).resume_le (fits _ memB) h.2 h.1
  have whole := @exists_encode_foldl text plan.descending _ [] fits descending
    (fun entry mem => (fits entry mem).inside) (Text.Utf8.between_length text)
  rwa [List.take_length, show Text.Utf8.encode [] = [] from rfl, List.append_nil] at whole

end Plan

end Rewrite

/-- A patch that a rule has for a document fits it. -/
lemma Application.Plans.fits {document : Manifest} {decoded : Manifest.Decoded}
    {tree : Yaml.Layout.Tree} {rule : ReadyRule} {entry : Rewrite.Patch × String}
    (decodes : Extractor.Decodes document decoded) (indexed : decoded.tree? = some tree)
    (plans : Plans document decoded.object tree rule entry) : entry.1.Fits document.raw := by
  obtain ⟨place, value, patches, -, -, met, mem⟩ := plans
  obtain ⟨found, colon, visited, known, patch⟩ := (Rewrite.mem_iff_of_patchesAt met).mp mem
  rw [patch]
  exact Rewrite.fits_entryPatch (decodes.mark indexed visited known)

namespace Extractor

variable {extractor : Extractor} {documents : List Manifest} {values : ValuesTree}

/-- A document that is a text is a text after a run, and every patch that is found in it cuts
between characters. -/
theorem run_document_text {i : Nat} {document : Manifest} {text : List Char}
    (given : documents[i]? = some document) (read : Text.Utf8.decode document.raw = .ok text) :
    (∃ rewritten result, (extractor.run documents values).documents[i]? = some rewritten ∧
        Text.Utf8.decode rewritten.raw = .ok result) ∧
      ∀ tree place patches, Yaml.Layout.Tree.ofText? text = some tree →
        Rewrite.patchesAt tree document.raw place = .ok patches → ∀ patch ∈ patches,
          Text.Utf8.Between text patch.first ∧ Text.Utf8.Between text patch.stop := by
  have raw : Text.Utf8.encode text = document.raw := Text.Utf8.encode_of_decode read
  constructor
  · obtain ⟨after, fates, runs⟩ := exists_runs extractor documents values
    obtain ⟨outputs, -, -, -⟩ := run_of_runs runs
    obtain ⟨middle, fate, there, treats⟩ := runs.treats given
    rw [outputs, List.getElem?_map, there]
    cases treats with
    | skipped | undecodable | unmatched | unindexed => exact ⟨_, text, rfl, read⟩
    | @rewritten _ plan _ _ _ decodes busy indexed applied =>
      have fits : ∀ entry ∈ plan.entries, entry.1.Fits document.raw := by
        intro entry mem
        obtain ⟨turn, of, -, rfl, -, plans⟩ :=
          Turn.exists_of_planned given decodes indexed applied mem
        exact plans.fits of.decodes of.indexed
      obtain ⟨result, made⟩ := Rewrite.Plan.exists_encode_apply
        (applied.disjoint Rewrite.Plan.disjoint_empty) (raw ▸ fits)
      refine ⟨_, result, rfl, ?_⟩
      rw [rewrite_eq, ← raw, made, Text.Utf8.decode_encode]
  · intro tree place patches indexed met patch mem
    obtain ⟨entry, colon, visited, known, rfl⟩ := (Rewrite.mem_iff_of_patchesAt met).mp mem
    have mark := Rewrite.mark_of_mem_walk indexed visited known
    rw [← raw]
    have fits : (Rewrite.entryPatch (Text.Utf8.encode text) place entry colon).Fits _ :=
      Rewrite.fits_entryPatch mark
    rw [Rewrite.Patch.first, Rewrite.Patch.stop, Nat.max_eq_left fits.ordered]
    exact fits.between

/-- Two fields of a document with accents in a key, in values and in comments are rewritten. -/
theorem run_document_text_accented :
    let extractor : Extractor := ⟨[.ofField "a" "k", .ofField "é" "l"], [], ⟨false, valuesName⟩⟩
    let document := Manifest.ofFields "a.yaml" "ö # à" "y\né: ñ # ß"
    let text := "apiVersion: v1\nkind: A\na: ö # à\nb: y\né: ñ # ß\n".toList
    let run := extractor.run [document] .empty
    [document][0]? = some document ∧ Text.Utf8.decode document.raw = .ok text ∧
      run.report.documents[0]? = some ("a.yaml", .rewritten 2 0) ∧
      (∃ rewritten result, run.documents[0]? = some rewritten ∧
        Text.Utf8.decode rewritten.raw = .ok result) ∧
      ∀ tree place patches, Yaml.Layout.Tree.ofText? text = some tree →
        Rewrite.patchesAt tree document.raw place = .ok patches → ∀ patch ∈ patches,
          Text.Utf8.Between text patch.first ∧ Text.Utf8.Between text patch.stop := by
  intro extractor document text run
  have read : Text.Utf8.decode document.raw = .ok text := Text.Utf8.decode_encode text
  have state : run.report.documents[0]? = some ("a.yaml", .rewritten 2 0) := by decide +kernel
  exact ⟨rfl, read, state, run_document_text rfl read⟩

end Extractor

end ChartLift
