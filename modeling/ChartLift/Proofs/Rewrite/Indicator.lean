import ChartLift.Proofs.Rewrite.Match
import ChartLift.Proofs.Yaml.Indicator

/-!
# References behind their keys

The patch for an entry puts its reference right behind the `:` that is recorded for it
(`apply_entryPatch`). For a key that is written as a plain scalar on one line this is the `:` of the
key wherever nothing strays on its line, and otherwise never (`indicator_own`).
-/

namespace ChartLift.Rewrite

open Text (Bytes)
open Text.Utf8 (encode encode_append)
open Yaml.Layout (Node Tree Entry PlainKey Strays Own apart_cons eq_of_blank)

/-! ## Patches -/

/-- The last byte that is kept before a reference is the `:` of the entry or a space behind it. -/
lemma keep_entrySpan {source : Bytes} {colon : Nat} (entry : Entry)
    (short : colon < source.length) :
    (entrySpan source entry colon).1 = colon ∨
      (entrySpan source entry colon).1 = colon + 1 ∧ source[colon + 1]? = some 32 := by
  rw [entrySpan_eq entry short]
  split
  next space => exact .inr ⟨rfl, beq_iff_eq.mp (Bool.and_eq_true_iff.mp space).2⟩
  next => exact .inl rfl

/-- A patch that keeps what stands up to a `:`, or a space behind it too, puts a space and the
reference behind the `:`. -/
lemma Patch.apply_of_kept {source : Bytes} {colon : Nat} {patch : Patch}
    (mark : source[colon]? = some 58)
    (kept : patch.keep = colon ∨ patch.keep = colon + 1 ∧ source[colon + 1]? = some 32)
    (key : String) :
    ∃ rest, patch.apply key source =
      source.take colon ++ 58 :: 32 :: Text.bytes (referenceExpression key) ++ rest := by
  obtain ⟨short, is⟩ := List.getElem?_eq_some_iff.mp mark
  have filled : source.isEmpty = false := by
    cases source with
    | nil => cases mark
    | cons => rfl
  have upto : source.take (colon + 1) = source.take colon ++ [58] := by
    rw [List.take_succ_eq_append_getElem short, is]
  obtain ⟨path, keep, resume⟩ := patch
  replace kept : keep = colon ∨ keep = colon + 1 ∧ source[colon + 1]? = some 32 := kept
  rw [Patch.apply, filled, if_neg Bool.false_ne_true]
  rcases kept with rfl | ⟨rfl, space⟩
  · have inside : min keep (source.length - 1) = keep := by omega
    simp only [inside, mark, upto, if_true, List.append_assoc]
    exact ⟨_, rfl⟩
  · obtain ⟨more, is'⟩ := List.getElem?_eq_some_iff.mp space
    have inside : min (colon + 1) (source.length - 1) = colon + 1 := by omega
    have further : source.take (colon + 1 + 1) = source.take colon ++ [58, 32] := by
      rw [List.take_succ_eq_append_getElem more, is', upto, List.append_assoc]
      rfl
    have apart : ¬ some (32 : UInt8) = some 58 := by decide
    simp only [inside, space, further, if_neg apart, List.append_assoc]
    exact ⟨_, rfl⟩

lemma apply_entryPatch {source : Bytes} {colon : Nat} (mark : source[colon]? = some 58)
    (path : Path) (entry : Entry) (key : String) :
    ∃ rest, (entryPatch source path entry colon).apply key source =
      source.take colon ++ 58 :: 32 :: Text.bytes (referenceExpression key) ++ rest :=
  Patch.apply_of_kept mark (keep_entrySpan entry (List.getElem?_eq_some_iff.mp mark).1) key

/-- That a patch leaves a key, which starts at an offset, as it is written, and puts the reference
behind its `:`. -/
def Patch.FollowsKey (text name : List Char) (start : Nat) (patch : Patch) : Prop :=
  ∃ front blanks behind, text = front ++ (name ++ (blanks ++ ':' :: behind)) ∧
    start = (encode front).length ∧ (∀ x ∈ blanks, Yaml.isSpaceOrTab x = true) ∧
    ∀ key, ∃ rest, patch.apply key (encode text) =
      encode (front ++ name ++ blanks) ++ 58 :: 32 :: Text.bytes (referenceExpression key) ++ rest

/-- For an entry whose key is written as a plain scalar on one line, the `:` of the key is recorded
and no other one, and a reference takes the place of what follows this `:`, wherever nothing strays.
Where something strays, a `:` that is recorded is not that of the key. -/
theorem indicator_own {text : List Char} {tree : Tree} {root : Node}
    (read : Tree.ofText? text = some tree) (rooted : tree.root = some root) :
    root.Everywhere fun entry => ∀ name after, PlainKey text entry name after →
      (¬ Strays name after → ∀ c,
        (entry.indicator = some c ↔ Own entry name after c) ∧
        (entry.indicator = some c → ∀ path,
          (entryPatch (encode text) path entry c).FollowsKey text name entry.keySpan.start)) ∧
      (Strays name after → ∀ c, entry.indicator = some c → ¬ Own entry name after c) := by
  refine (Tree.built_of_ofText? read rooted).everywhere fun entry made name after plain => ?_
  have found : entry.indicator = Yaml.Layout.findIndicator (encode text) entry.keySpan.start := by
    rw [made, plain.key]
    rfl
  simp only [found]
  refine ⟨fun straight c => ⟨plain.findIndicator_iff straight, fun hit path => ?_⟩,
    fun strays c hit => plain.not_own strays hit⟩
  obtain ⟨blanks, behind, rfl, blank, rfl⟩ := (plain.findIndicator_iff straight).mp hit
  obtain ⟨front, rfl, start⟩ := plain.place
  refine ⟨front, blanks, behind, rfl, start, blank, fun key => ?_⟩
  have mark := Yaml.Layout.findIndicator_eq_some hit
  have upto : (encode (front ++ (name ++ (blanks ++ ':' :: behind)))).take
      (entry.keySpan.start + (encode (name ++ blanks)).length) =
        encode (front ++ name ++ blanks) := by
    rw [start, ← List.length_append, ← encode_append, ← List.append_assoc name blanks,
      ← List.append_assoc front (name ++ blanks), encode_append _ (':' :: behind), List.take_left,
      List.append_assoc]
  rw [← upto]
  exact apply_entryPatch mark path entry key

/-- A nested entry with a `#` and a `:` in its key, and a `:` in the comment behind it. -/
def markedEntry : Entry :=
  ⟨some "é b#c:d", ⟨5, 16⟩, some 14, .scalar ⟨16, 25⟩ "e"⟩

/-- A tree with that entry. -/
def markedTree : Tree :=
  ⟨some (.mapping ⟨1, 25⟩ false
    [⟨some "x", ⟨0, 14⟩, some 1, .mapping ⟨14, 25⟩ false [markedEntry]⟩]), 25⟩

lemma plainKey_marked : PlainKey "x:\n  é b#c:d\t: e # f: g\n".toList markedEntry "é b#c:d".toList
    "\t: e # f: g\n".toList where
  key := rfl
  place := ⟨"x:\n  ".toList, rfl, rfl⟩
  begins := ⟨'é', rfl, rfl, by decide, by decide⟩
  oneLine x mem := by
    have solid : ("é b#c:d".toList.all fun y => !Yaml.Layout.isBreak y && y != '\x00') = true := rfl
    simpa using List.all_eq_true.mp solid x mem
  reads := ⟨0, 100, ⟨.none, .start "é b#c:d\t: e # f: g\n".toList, 0, true⟩, _, rfl, by decide,
    rfl, rfl⟩

lemma not_strays_marked : ¬ Strays "é b#c:d".toList "\t: e # f: g\n".toList :=
  Yaml.Layout.not_strays (List.forall_mem_singleton.mpr rfl) (by decide) (by decide)

theorem indicator_own_marked :
    Tree.ofText? "x:\n  é b#c:d\t: e # f: g\n".toList = some markedTree ∧
      PlainKey "x:\n  é b#c:d\t: e # f: g\n".toList markedEntry "é b#c:d".toList
        "\t: e # f: g\n".toList ∧
      ¬ Strays "é b#c:d".toList "\t: e # f: g\n".toList ∧
      Own markedEntry "é b#c:d".toList "\t: e # f: g\n".toList 14 := by
  have read : Tree.ofText? "x:\n  é b#c:d\t: e # f: g\n".toList = some markedTree := by rfl
  refine ⟨read, plainKey_marked, not_strays_marked, ?_⟩
  cases indicator_own read rfl with
  | mapping _ below =>
    cases below _ (List.mem_singleton_self _) with
    | mapping here _ =>
      have own := (here _ (List.mem_singleton_self _) _ _ plainKey_marked).1 not_strays_marked 14
      exact own.1.mp rfl

/-- An entry of an explicit key with a comment behind it. -/
def explicitEntry : Entry :=
  ⟨some "a", ⟨2, 13⟩, some 7, .scalar ⟨13, 15⟩ "b"⟩

/-- The tree of that entry. -/
def explicitTree : Tree :=
  ⟨some (.mapping ⟨0, 15⟩ false [explicitEntry]), 15⟩

/-- Where a comment stands behind an explicit key, the `:` in it is recorded for the entry, and the
reference goes into the comment while the value is dropped. -/
theorem indicator_of_comment :
    Tree.ofText? "? a # c: d\n: b\n".toList = some explicitTree ∧
      PlainKey "? a # c: d\n: b\n".toList explicitEntry ['a'] " # c: d\n: b\n".toList ∧
      explicitEntry.indicator = some 7 ∧
      ¬ Own explicitEntry ['a'] " # c: d\n: b\n".toList 7 ∧
      patchesAt explicitTree (encode "? a # c: d\n: b\n".toList) ⟨[.field "a"]⟩ =
        .ok [⟨"$.a", 8, 15⟩] ∧
      Patch.apply ⟨"$.a", 8, 15⟩ "k" (encode "? a # c: d\n: b\n".toList) =
        encode "? a # c: \x7b\x7b .Values.k \x7d\x7d\n".toList := by
  refine ⟨by rfl, ?_, rfl, ?_, by decide +kernel, by decide +kernel⟩
  · exact {
      key := rfl
      place := ⟨"? ".toList, rfl, rfl⟩
      begins := ⟨'a', rfl, rfl, by decide, by decide⟩
      oneLine := List.forall_mem_singleton.mpr ⟨rfl, by decide⟩
      reads := ⟨0, 100, ⟨.none, .start "a # c: d\n: b\n".toList, 0, true⟩, _, rfl, by decide,
        rfl, rfl⟩ }
  · rintro ⟨blanks, behind, eq, blank, -⟩
    have first : ∀ x ∈ [' '], Yaml.isSpaceOrTab x = true := List.forall_mem_singleton.mpr rfl
    cases (eq_of_blank first blank (apart_cons rfl) (apart_cons rfl) eq).2

end ChartLift.Rewrite
