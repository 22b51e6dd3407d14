import ChartLift.Proofs.Rewrite.Span

/-!
# Entries that clash

A patch for an entry takes the bytes from behind its `:` up to where a line starts. Two entries clash
if the `:` of one lies in the bytes of the other, and exactly then their patches overlap
(`overlaps_iff_clash`), unless a `:` is the last byte of the document: no byte is left behind it to be
taken. What stands beneath an entry, on its line or on a line before the next token that is neither
blank nor a comment of its column, lies in its bytes (`Marked.Beneath.takes`).
-/

namespace ChartLift.Rewrite

open Text (Bytes)
open Yaml.Layout (Entry)

variable {source : Bytes}

/-! ## Lines -/

lemma ne_feed_of_lt_takeWhile {bytes : Bytes} {i : Nat}
    (h : i < (bytes.takeWhile inLine).length) : bytes[i]? ≠ some 10 := by
  intro feed
  have here : (bytes.takeWhile inLine)[i]? = some 10 := by
    rw [← feed]
    obtain ⟨rest, whole⟩ := List.takeWhile_prefix inLine (l := bytes)
    conv_rhs => rw [← whole]
    rw [List.getElem?_append_left h]
  have inside := List.all_eq_true.mp List.all_takeWhile _ (List.mem_of_getElem? here)
  cases inside

lemma ne_feed_of_lineStart_le {n i : Nat} (start : lineStart source n ≤ i) (before : i < n) :
    source[i]? ≠ some 10 := by
  intro feed
  obtain ⟨short, -⟩ := List.getElem?_eq_some_iff.mp feed
  have length : (source.take n).length = min n source.length := List.length_take
  simp only [lineStart] at start
  refine @ne_feed_of_lt_takeWhile (source.take n).reverse ((source.take n).length - 1 - i)
    (by omega) ?_
  rw [List.getElem?_reverse (by omega), List.getElem?_take_of_lt (by omega), ← feed]
  congr 1
  omega

lemma ne_feed_of_lt_lineEnd {n i : Nat} (ahead : n ≤ i) (before : i < lineEnd source n) :
    source[i]? ≠ some 10 := by
  rw [lineEnd] at before
  have same : source[i]? = (source.drop n)[i - n]? := by
    rw [List.getElem?_drop, Nat.add_sub_cancel' ahead]
  rw [same]
  exact ne_feed_of_lt_takeWhile (by omega)

/-- The line of an offset, with its line feed. -/
def lineAt (source : Bytes) (n : Nat) : Bytes :=
  (source.take (lineEnd source n + 1)).drop (lineStart source n)

/-- A range that ends at a boundary and begins where its last line does is the line of every offset
in it. -/
lemma slice_eq_lineAt {n stop : Nat} (boundary : Boundary source stop)
    (inside : stop ≤ source.length) (start : lineStart source (stop - 1) ≤ n)
    (before : n < stop) :
    (source.take stop).drop (lineStart source (stop - 1)) = lineAt source n := by
  have le : lineStart source n ≤ n := lineStart_le source n
  -- neither start lies behind the other, since no line feed stands between a start and an offset
  have starts : lineStart source (stop - 1) = lineStart source n := by
    refine Nat.le_antisymm (Nat.le_of_not_lt fun later => ?_) (Nat.le_of_not_lt fun later => ?_)
    · rcases @boundary_lineStart source (stop - 1) with whole | none | feed
      · omega
      · omega
      · exact ne_feed_of_lineStart_le (n := n) (by omega) (by omega) feed
    · rcases @boundary_lineStart source n with whole | none | feed
      · omega
      · omega
      · exact ne_feed_of_lineStart_le (n := stop - 1) (by omega) (by omega) feed
  have ahead : n ≤ lineEnd source n := Nat.le_add_right ..
  have reaches : stop ≤ lineEnd source n + 1 := by
    refine Nat.le_of_not_lt fun short => ?_
    rcases line_stop (source.drop n) with whole | feed
    · rw [List.length_drop] at whole
      rw [lineEnd] at short
      omega
    · rw [List.getElem?_drop] at feed
      exact ne_feed_of_lineStart_le (n := stop - 1) (by omega) (show lineEnd source n < _ by omega)
        feed
  rw [lineAt, starts]
  rcases Nat.lt_or_eq_of_le reaches with short | whole
  · rcases boundary with whole | none | feed
    · rw [List.take_of_length_le (by omega), List.take_of_length_le (by omega)]
    · omega
    · exact absurd feed (ne_feed_of_lt_lineEnd (n := n) (by omega) (by omega))
  · rw [whole]

/-- An offset on a line that is neither blank nor a comment does not belong to what follows. -/
lemma lt_triviaStart {n column stop : Nat} (floor : Nat) (boundary : Boundary source stop)
    (inside : stop ≤ source.length) (before : n < stop)
    (solid : isTrivia column (lineAt source n) = false) :
    n < triviaStart source floor column stop := by
  fun_induction triviaStart source floor column stop with
  | case1 stop above previous trivia ih =>
    have short : previous ≤ stop - 1 := lineStart_le source (stop - 1)
    refine ih (boundary_lineStart _) (by omega) (Nat.lt_of_not_le fun start => ?_)
    rw [slice_eq_lineAt boundary inside start before, solid] at trivia
    cases trivia
  | case2 => exact before
  | case3 => exact before

/-! ## Clashes -/

/-- An entry and where its `:` stands. -/
structure Marked where
  entry : Entry
  colon : Nat

namespace Marked

/-- The bytes that a patch for an entry takes, with its `:`. -/
def Takes (source : Bytes) (a : Marked) (n : Nat) : Prop :=
  a.colon ≤ n ∧ n < (entrySpan source a.entry a.colon).2

/-- That the `:` of one of two entries lies in the bytes of the other. -/
def Clash (source : Bytes) (a b : Marked) : Prop :=
  a.Takes source b.colon ∨ b.Takes source a.colon

/-- Where the search for the end of an entry begins: at the start of the line of the next token, or at
the end of the source. -/
def nextLine (source : Bytes) (a : Marked) : Nat :=
  if source.length ≤ a.entry.value.span.stop then source.length
  else lineStart source a.entry.value.span.stop

/-- That an entry stands beneath another one: behind its `:`, on the same line, or else before the
line of the next token, on a line that is neither blank nor a comment no deeper than the key. -/
structure Beneath (source : Bytes) (outer inner : Marked) : Prop where
  behind : outer.colon ≤ inner.colon
  line : inner.colon ≤ lineEnd source outer.colon ∨
    inner.colon < outer.nextLine source ∧
      isTrivia (outer.entry.keySpan.start - lineStart source outer.entry.keySpan.start)
        (lineAt source inner.colon) = false

variable {a b : Marked}

/-- What stands beneath an entry lies in its bytes. -/
lemma Beneath.takes (beneath : Beneath source a b) (mark : source[a.colon]? = some 58)
    (inside : b.colon < source.length) : a.Takes source b.colon := by
  obtain ⟨short, -⟩ := List.getElem?_eq_some_iff.mp mark
  refine ⟨beneath.behind, ?_⟩
  rw [entrySpan_eq a.entry short]
  rcases beneath.line with line | ⟨before, solid⟩
  · refine Nat.lt_of_lt_of_le ?_ (Nat.le_max_right ..)
    omega
  · refine Nat.lt_of_lt_of_le ?_ (Nat.le_max_left ..)
    rw [nextLine] at before
    refine lt_triviaStart _ ?_ ?_ before solid
    · split
      · exact .inl rfl
      · exact boundary_lineStart _
    · split
      · exact Nat.le_refl _
      · exact lineStart_le_length _

/-- Patches for entries overlap if and only if the entries clash. -/
lemma overlaps_iff_clash (path path' : Path) (markA : source[a.colon]? = some 58)
    (moreA : a.colon + 1 < source.length) (markB : source[b.colon]? = some 58)
    (moreB : b.colon + 1 < source.length) :
    (entryPatch source path a.entry a.colon).overlaps (entryPatch source path' b.entry b.colon) = true ↔
      Clash source a b := by
  have spanA : Span source a.colon _ _ := @span_entrySpan source a.colon a.entry markA moreA
  have spanB : Span source b.colon _ _ := @span_entrySpan source b.colon b.entry markB moreB
  rw [entryPatch, entryPatch, ← Bool.not_eq_false,
    (spanA.proper _).overlaps_eq_false_iff (spanB.proper _), Clash, Takes, Takes]
  have := spanA.nonempty
  have := spanB.nonempty
  have keptA : a.colon ≤ (entrySpan source a.entry a.colon).1 := by
    rcases spanA.kept with kept | ⟨kept, -⟩ <;> omega
  have keptB : b.colon ≤ (entrySpan source b.entry b.colon).1 := by
    rcases spanB.kept with kept | ⟨kept, -⟩ <;> omega
  dsimp only
  -- bytes that end before those of the other begin end before its `:`
  have beforeA := spanA.before spanB
  have beforeB := spanB.before spanA
  omega

end Marked

end ChartLift.Rewrite
