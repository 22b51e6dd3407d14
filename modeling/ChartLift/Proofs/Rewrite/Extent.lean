import ChartLift.Proofs.Rewrite.Checked
import ChartLift.Proofs.Rewrite.Following
import ChartLift.Proofs.Rewrite.Indicator
import Mathlib.Data.List.TakeWhile
import Mathlib.Order.Bounds.Basic

/-!
# The extent of an entry

The bytes of an entry that give way begin behind its `:`, or behind the space that follows it if a
value begins on the line of the `:` (`entrySpan_fst_iff`). They end at the first place behind that line
from which only blank lines and comments no deeper than the key lead to the next token
(`isLeast_entrySpan`). Both are found within the source, by a search that comes to an end
(`extent_entrySpan`).
-/

namespace ChartLift.Rewrite

open Text (Bytes)
open Yaml.Layout (Entry Node Tree)

variable {source : Bytes} {entry : Entry} {colon : Nat}

/-! ## Where a value begins -/

/-- That a value begins on the line of a `:`: behind the blanks there, a byte stands on the line that
starts no comment. -/
def Inline (source : Bytes) (colon : Nat) : Prop :=
  ∃ blanks b rest, source.drop (colon + 1) = blanks ++ b :: rest ∧
    (∀ c ∈ blanks, isLineBlank c = true) ∧ isLineBlank b = false ∧ b ≠ 10 ∧ b ≠ 35

lemma inLine_of_isLineBlank {b : UInt8} (blank : isLineBlank b = true) : inLine b = true := by
  refine bne_iff_ne.mpr ?_
  rintro rfl
  cases blank

/-- Where blanks end a text is cut. -/
lemma dropWhile_isLineBlank_eq_cons_iff {line rest : Bytes} {b : UInt8} :
    line.dropWhile isLineBlank = b :: rest ↔
      ∃ blanks, line = blanks ++ b :: rest ∧ (∀ c ∈ blanks, isLineBlank c = true) ∧
        isLineBlank b = false := by
  constructor
  · intro cut
    refine ⟨line.takeWhile isLineBlank, ?_, fun c mem => List.mem_takeWhile_imp mem, ?_⟩
    · rw [← cut]
      exact List.takeWhile_append_dropWhile.symm
    · have first := List.head?_dropWhile_not isLineBlank line
      rw [cut] at first
      simpa using first
  · rintro ⟨blanks, rfl, blank, other⟩
    rw [List.dropWhile_append_of_pos blank, List.dropWhile_cons_of_neg (by rw [other]; decide)]

lemma beginsInline_iff : beginsInline source colon = true ↔ Inline source colon := by
  have begins : beginsInline source colon = true ↔ ∃ b rest,
      ((source.drop (colon + 1)).takeWhile inLine).dropWhile isLineBlank = b :: rest ∧ b ≠ 35 := by
    rw [beginsInline]
    cases ((source.drop (colon + 1)).takeWhile inLine).dropWhile isLineBlank with
    | nil => simp
    | cons b rest => simp
  rw [begins]
  simp only [dropWhile_isLineBlank_eq_cons_iff]
  constructor
  · rintro ⟨b, rest, ⟨blanks, line, blank, other⟩, note⟩
    have mem : b ∈ (source.drop (colon + 1)).takeWhile inLine := by rw [line]; simp
    have inside : inLine b = true := List.mem_takeWhile_imp mem
    refine ⟨blanks, b, rest ++ (source.drop (colon + 1)).dropWhile inLine, ?_, blank, other,
      bne_iff_ne.mp inside, note⟩
    rw [← List.cons_append, ← List.append_assoc, ← line, List.takeWhile_append_dropWhile]
  · rintro ⟨blanks, b, rest, behind, blank, other, inside, note⟩
    refine ⟨b, rest.takeWhile inLine, ⟨blanks, ?_, blank, other⟩, note⟩
    rw [behind, List.takeWhile_append_of_pos fun c mem => inLine_of_isLineBlank (blank c mem),
      List.takeWhile_cons_of_pos (show inLine b = true from bne_iff_ne.mpr inside)]

/-- The space behind a `:` is kept if a value begins behind it on its line. -/
lemma entrySpan_fst_iff (entry : Entry) (mark : source[colon]? = some 58) :
    (source[colon + 1]? = some 32 ∧ Inline source colon →
      (entrySpan source entry colon).1 = colon + 1) ∧
    (¬ (source[colon + 1]? = some 32 ∧ Inline source colon) →
      (entrySpan source entry colon).1 = colon) := by
  rw [entrySpan_eq entry (List.getElem?_eq_some_iff.mp mark).1]
  have kept : (beginsInline source colon && source[colon + 1]? == some 32) = true ↔
      source[colon + 1]? = some 32 ∧ Inline source colon := by
    rw [Bool.and_eq_true, beq_iff_eq, beginsInline_iff, and_comm]
  exact ⟨fun both => if_pos (kept.mpr both), fun other => if_neg (kept.not.mpr other)⟩

/-! ## Lines that are passed over -/

/-- The column of the key of an entry. -/
def keyColumn (source : Bytes) (entry : Entry) : Nat :=
  entry.keySpan.start - lineStart source entry.keySpan.start

/-- That a line is blank, or a comment indented no deeper than a column. -/
def PassedOver (column : Nat) (line : Bytes) : Prop :=
  (∀ b ∈ line, isLineBlank b = true ∨ b = 10) ∨
    ∃ blanks note, line = blanks ++ 35 :: note ∧ (∀ b ∈ blanks, isLineBlank b = true) ∧
      (line.takeWhile (· == 32)).length ≤ column

/-- Nothing stands behind the line feed of a line. -/
lemma eq_nil_of_lineAt {n : Nat} {front rest : Bytes}
    (split : lineAt source n = front ++ 10 :: rest) : rest = [] := by
  have feed : (lineAt source n)[front.length]? = some 10 := by rw [split]; simp
  have length := congrArg List.length split
  rw [lineAt, List.length_drop, List.length_take, List.length_append, List.length_cons] at length
  by_contra some
  have more : 0 < rest.length := List.length_pos_of_ne_nil some
  rw [lineAt, List.getElem?_drop, List.getElem?_take_of_lt (by omega)] at feed
  -- the feed would stand before the end of the line
  rcases Nat.lt_or_ge (lineStart source n + front.length) n with before | behind
  · exact ne_feed_of_lineStart_le (Nat.le_add_right ..) before feed
  · exact ne_feed_of_lt_lineEnd behind (by omega) feed

lemma isTrivia_lineAt_iff {column n : Nat} :
    isTrivia column (lineAt source n) = true ↔ PassedOver column (lineAt source n) := by
  have last := @eq_nil_of_lineAt source n
  generalize lineAt source n = line at last
  rw [isTrivia]
  cases cut : line.dropWhile isLineBlank with
  | nil => exact iff_of_true rfl (.inl fun b mem => .inl (List.dropWhile_eq_nil_iff.mp cut b mem))
  | cons b rest =>
    obtain ⟨blanks, split, blank, other⟩ := dropWhile_isLineBlank_eq_cons_iff.mp cut
    have mem : b ∈ line := by rw [split]; simp
    have passed_iff : PassedOver column line ↔ b = 10 ∨
        b = 35 ∧ (line.takeWhile (· == 32)).length ≤ column := by
      constructor
      · rintro (all | ⟨blanks', note, split', blank', shallow⟩)
        · exact .inl ((all b mem).resolve_left (by rw [other]; decide))
        · have cut' := dropWhile_isLineBlank_eq_cons_iff.mpr ⟨blanks', split', blank', rfl⟩
          cases cut.symm.trans cut'
          exact .inr ⟨rfl, shallow⟩
      · rintro (rfl | ⟨rfl, shallow⟩)
        · cases last split
          refine .inl fun c mem => ?_
          rw [split, List.mem_append, List.mem_singleton] at mem
          exact mem.imp_left (blank c)
        · exact .inr ⟨blanks, rest, split, blank, shallow⟩
    rw [passed_iff]
    by_cases feed : b = 10
    · simp [feed]
    · by_cases note : b = 35
      · simp [note]
      · simp [feed, note]

/-! ## Where an entry ends -/

/-- That a place is behind the line of a `:`, at the end of the source or where a line starts, and
lines from it up to the one of the next token are passed over. -/
structure Ends (source : Bytes) (entry : Entry) (colon p : Nat) : Prop where
  place : p = source.length ∨ lineEnd source colon < p ∧ source[p - 1]? = some 10
  passed : ∀ n, p ≤ n → n < Marked.nextLine source ⟨entry, colon⟩ →
    PassedOver (keyColumn source entry) (lineAt source n)

lemma entrySpan_snd (entry : Entry) (mark : source[colon]? = some 58) :
    (entrySpan source entry colon).2 =
      max (triviaStart source (min (lineEnd source colon + 1) source.length)
        (keyColumn source entry) (Marked.nextLine source ⟨entry, colon⟩))
        (min (lineEnd source colon + 1) source.length) := by
  rw [entrySpan_eq entry (List.getElem?_eq_some_iff.mp mark).1, nextLine_mk, keyColumn]

lemma le_lineStart_of_boundary {p stop : Nat} (boundary : Boundary source p) (before : p < stop)
    (inside : stop ≤ source.length) : p ≤ lineStart source (stop - 1) := by
  rcases boundary with whole | none | feed
  · omega
  · omega
  · rcases Nat.eq_zero_or_pos p with rfl | some
    · exact Nat.zero_le _
    · have := @lt_lineStart source (p - 1) (stop - 1) (by omega) feed
      omega

/-- The search passes all lines from a place on that it may pass. -/
lemma triviaStart_le {floor column stop p : Nat} (boundary : Boundary source stop)
    (inside : stop ≤ source.length) (place : Boundary source p) (above : floor ≤ p)
    (ahead : p ≤ stop) (passed : ∀ n, p ≤ n → n < stop → isTrivia column (lineAt source n) = true) :
    triviaStart source floor column stop ≤ p := by
  fun_induction triviaStart source floor column stop with
  | case1 stop higher previous trivia ih =>
    have le : previous ≤ stop - 1 := lineStart_le source (stop - 1)
    rcases Nat.eq_or_lt_of_le ahead with rfl | before
    · have back := (boundary_triviaStart floor column (@boundary_lineStart source (p - 1))).2
      exact Nat.le_trans back (by omega)
    · refine ih (boundary_lineStart _) (by omega) (le_lineStart_of_boundary place before inside)
        fun n from_p upto => passed n from_p (by omega)
  | case2 stop higher previous solid =>
    have le : previous ≤ stop - 1 := lineStart_le source (stop - 1)
    rcases Nat.eq_or_lt_of_le ahead with rfl | before
    · exact Nat.le_refl _
    · have trivia := passed (stop - 1) (by omega) (by omega)
      rw [← slice_eq_lineAt boundary inside le (by omega)] at trivia
      exact absurd trivia solid
  | case3 stop reached => omega

/-- The bytes of an entry end at the first place where they may. -/
lemma isLeast_entrySpan (entry : Entry) (mark : source[colon]? = some 58) :
    IsLeast {p | Ends source entry colon p} (entrySpan source entry colon).2 := by
  rw [entrySpan_snd entry mark]
  obtain ⟨start, inside⟩ : Boundary source (Marked.nextLine source ⟨entry, colon⟩) ∧
      Marked.nextLine source ⟨entry, colon⟩ ≤ source.length := boundary_next _
  have line : Boundary source (min (lineEnd source colon + 1) source.length) :=
    boundary_lineEnd colon
  obtain ⟨short, -⟩ := List.getElem?_eq_some_iff.mp mark
  generalize floors : min (lineEnd source colon + 1) source.length = floor at line ⊢
  obtain ⟨boundary, back⟩ := boundary_triviaStart floor (keyColumn source entry) start
  refine ⟨⟨?_, fun n behind before => ?_⟩, ?_⟩
  · rcases boundary.max line with whole | none | feed
    · exact .inl whole
    · omega
    · obtain ⟨within, -⟩ := List.getElem?_eq_some_iff.mp feed
      by_cases last : floor = source.length
      · exact .inl (by omega)
      · exact .inr ⟨by omega, feed⟩
  · rw [← isTrivia_lineAt_iff, ← Bool.not_eq_false]
    intro solid
    have later := lt_triviaStart floor start inside before solid
    omega
  · rintro p ⟨place, passed⟩
    have spot : Boundary source p := place.imp_right fun behind => .inr behind.2
    have above : floor ≤ p := by
      rcases place with whole | ⟨behind, -⟩ <;> omega
    refine Nat.max_le.mpr ⟨?_, above⟩
    rcases Nat.lt_or_ge (Marked.nextLine source ⟨entry, colon⟩) p with beyond | ahead
    · exact Nat.le_trans back (Nat.le_of_lt beyond)
    · exact triviaStart_le start inside spot above ahead fun n from_p upto =>
        isTrivia_lineAt_iff.mpr (passed n from_p upto)

/-- No byte is kept both before the reference and behind it. -/
lemma fst_lt_snd_entrySpan (entry : Entry) (mark : source[colon]? = some 58) :
    (entrySpan source entry colon).1 + 1 ≤ (entrySpan source entry colon).2 := by
  obtain ⟨short, -⟩ := List.getElem?_eq_some_iff.mp mark
  rcases keep_entrySpan entry short with kept | ⟨kept, space⟩
  · obtain ⟨floor, -⟩ := resume_entrySpan entry mark
    have : colon ≤ lineEnd source colon := Nat.le_add_right ..
    omega
  · obtain ⟨more, -⟩ := List.getElem?_eq_some_iff.mp space
    have span : Span source colon (entrySpan source entry colon).1
        (entrySpan source entry colon).2 := span_entrySpan mark more
    exact Nat.le_of_lt span.nonempty

/-- The span of an entry is found within the source, by a search that comes to an end. Its bytes
begin behind the `:` of the entry, or the space there if a value begins on the line, and reach beyond
this line up to the first place where they may end. -/
theorem extent_entrySpan {text : List Char} {tree : Tree} {root : Node}
    (read : Tree.ofText? text = some tree) (rooted : tree.root = some root) :
    root.Everywhere fun entry => ∀ colon, entry.indicator = some colon →
      let source := Text.Utf8.encode text
      ∃ keep resume,
        (∀ rounds, source.length < rounds →
          entrySpan? source rounds entry colon = some (keep, resume)) ∧
        entrySpan source entry colon = (keep, resume) ∧
        (source[colon + 1]? = some 32 ∧ Inline source colon → keep = colon + 1) ∧
        (¬ (source[colon + 1]? = some 32 ∧ Inline source colon) → keep = colon) ∧
        colon < keep + 1 ∧ keep + 1 ≤ resume ∧ resume ≤ source.length ∧
        (∀ n < source.length, n ≤ lineEnd source colon → n < resume) ∧
        IsLeast {p | Ends source entry colon p} resume := by
  refine (Yaml.Layout.Tree.built_of_ofText? read rooted).colon.imp fun entry marks colon known => ?_
  intro source
  have mark : source[colon]? = some 58 := marks colon known
  obtain ⟨spaced, other⟩ := entrySpan_fst_iff entry mark
  obtain ⟨floor, -⟩ := resume_entrySpan entry mark
  have least := isLeast_entrySpan entry mark
  have kept : colon ≤ (entrySpan source entry colon).1 := by
    rcases keep_entrySpan entry (List.getElem?_eq_some_iff.mp mark).1 with same | ⟨next, -⟩ <;> omega
  have inside : (entrySpan source entry colon).2 ≤ source.length := by
    rcases least.1.place with whole | ⟨-, feed⟩
    · exact Nat.le_of_eq whole
    · have := (List.getElem?_eq_some_iff.mp feed).1
      omega
  exact ⟨(entrySpan source entry colon).1, (entrySpan source entry colon).2,
    fun rounds enough => entrySpan?_eq entry mark enough, rfl, spaced, other,
    Nat.lt_succ_of_le kept, fst_lt_snd_entrySpan entry mark, inside,
    fun n short upto => by omega, least⟩

/-- An entry with a value and a comment on its line, and a deeper comment on the next line. -/
def notedEntry : Entry :=
  ⟨some "b", ⟨5, 8⟩, some 6, .scalar ⟨8, 27⟩ "1"⟩

/-- A tree with that entry in the value of another one, and a blank line and a comment behind it. -/
def notedTree : Tree :=
  ⟨some (.mapping ⟨1, 32⟩ false [⟨some "a", ⟨0, 6⟩, some 1, .mapping ⟨6, 27⟩ false [notedEntry]⟩,
    ⟨some "e", ⟨27, 30⟩, some 28, .scalar ⟨30, 32⟩ "2"⟩]), 32⟩

/-- The deeper comment goes with the entry, and the blank line and the other comment stay. -/
theorem extent_entrySpan_noted :
    Tree.ofText? "a:\n  b: 1 # x\n   # d\n\n # c\ne: 2\n".toList = some notedTree ∧
      let source := Text.Utf8.encode "a:\n  b: 1 # x\n   # d\n\n # c\ne: 2\n".toList
      entrySpan? source 33 notedEntry 6 = some (7, 21) ∧
        IsLeast {p | Ends source notedEntry 6 p} 21 := by
  have read : Tree.ofText? "a:\n  b: 1 # x\n   # d\n\n # c\ne: 2\n".toList = some notedTree := by
    rfl
  refine ⟨read, ?_⟩
  cases extent_entrySpan read rfl with
  | mapping _ below =>
    cases below _ List.mem_cons_self with
    | mapping here _ =>
      obtain ⟨keep, resume, checked, span, -, -, -, -, -, -, least⟩ :=
        here notedEntry (List.mem_singleton_self _) 6 rfl
      have computed :
          entrySpan (Text.Utf8.encode "a:\n  b: 1 # x\n   # d\n\n # c\ne: 2\n".toList)
            notedEntry 6 = (7, 21) := by
        decide +kernel
      cases span.symm.trans computed
      exact ⟨checked 33 (by decide +kernel), least⟩

end ChartLift.Rewrite
