import ChartLift.Proofs.Rewrite.Span

/-!
# Spans with every range checked

Taking a range of bytes fails where it does not lie within them, a difference where it would be
negative, and the search for the end of an entry might go on for ever. `entrySpan?` computes the span
of an entry so that each of these leaves it without a result, the search being given a number of
rounds. For an entry whose `:` is in the source it has one once there are more rounds than bytes, and
that is the span (`entrySpan?_eq`).
-/

namespace ChartLift.Rewrite

open Text (Bytes)
open Yaml.Layout (Entry)

/-- The bytes between two offsets, if there are such. -/
def slice? (bytes : Bytes) (start stop : Nat) : Option Bytes :=
  if start ≤ stop ∧ stop ≤ bytes.length then some ((bytes.take stop).drop start) else none

/-- A difference, if it is not negative. -/
def minus? (a b : Nat) : Option Nat :=
  if b ≤ a then some (a - b) else none

/-- A line from its first byte on that is no blank. -/
def trimStart? (line : Bytes) : Option Bytes :=
  slice? line (line.takeWhile isLineBlank).length line.length

/-- Where the line of an offset starts. -/
def lineStart? (source : Bytes) (offset : Nat) : Option Nat := do
  let before ← slice? source 0 (min offset source.length)
  return before.length - (before.reverse.takeWhile inLine).length

/-- Whether a line belongs to what follows an entry. -/
def isTrivia? (keyColumn : Nat) (line : Bytes) : Option Bool := do
  match (← trimStart? line).head? with
  | none => return true
  | some b =>
    if b == 10 then return true
    else if b == 35 then return decide ((line.takeWhile (· == 32)).length ≤ keyColumn)
    else return false

/-- The start of the first of the lines that belong to what follows an entry, if the search for it
comes to an end within a number of rounds. -/
def triviaStart? (source : Bytes) (floor keyColumn : Nat) : Nat → Nat → Option Nat
  | 0, _ => none
  | rounds + 1, stop => do
    if floor < stop then
      let previous ← lineStart? source (← minus? stop 1)
      if ← isTrivia? keyColumn (← slice? source previous stop) then
        triviaStart? source floor keyColumn rounds previous
      else return stop
    else return stop

/-- Where the search for the end of an entry begins, `next` being where the next token stands. -/
def searchStart? (source : Bytes) (next : Nat) : Option Nat :=
  if source.length ≤ next then some source.length else lineStart? source next

/-- The last byte kept before the reference that takes an entry's value, and the first one kept
behind it. -/
def entrySpan? (source : Bytes) (rounds : Nat) (entry : Entry) (colon : Nat) :
    Option (Nat × Nat) := do
  let length := source.length
  if length = 0 then return (0, 0)
  let colon := min colon (length - 1)
  let lineEnd := colon + ((← slice? source colon length).takeWhile inLine).length
  let rest ← trimStart? (← slice? source (colon + 1) lineEnd)
  let inline := !rest.isEmpty && rest.head? != some 35
  let keep := if inline && source[colon + 1]? == some 32 then colon + 1 else colon
  let floor := min (lineEnd + 1) length
  let stop ← searchStart? source entry.value.span.stop
  let keyColumn ← minus? entry.keySpan.start (← lineStart? source entry.keySpan.start)
  return (keep, max (← triviaStart? source floor keyColumn rounds stop) floor)

variable {source : Bytes}

lemma slice?_eq {bytes : Bytes} {start stop : Nat} (ordered : start ≤ stop)
    (inside : stop ≤ bytes.length) : slice? bytes start stop = some ((bytes.take stop).drop start) :=
  if_pos ⟨ordered, inside⟩

lemma minus?_eq {a b : Nat} (le : b ≤ a) : minus? a b = some (a - b) := if_pos le

lemma trimStart?_eq (line : Bytes) : trimStart? line = some (line.dropWhile isLineBlank) := by
  rw [trimStart?, slice?_eq (List.takeWhile_sublist _).length_le (Nat.le_refl _),
    List.take_length]
  congr 1
  conv_lhs => arg 2; rw [← @List.takeWhile_append_dropWhile _ isLineBlank line]
  exact List.drop_left

lemma lineStart?_eq (source : Bytes) (offset : Nat) :
    lineStart? source offset = some (lineStart source offset) := by
  rw [lineStart?, slice?_eq (Nat.zero_le _) (Nat.min_le_right ..), ← List.take_eq_take_min]
  rfl

lemma isTrivia?_eq (keyColumn : Nat) (line : Bytes) :
    isTrivia? keyColumn line = some (isTrivia keyColumn line) := by
  rw [isTrivia?, trimStart?_eq, isTrivia]
  cases line.dropWhile isLineBlank with
  | nil => rfl
  | cons b rest =>
    simp only [Option.bind_eq_bind, Option.bind_some, List.head?_cons]
    split
    next => rfl
    next => split <;> rfl

/-- The search comes to an end, since every line that it passes starts before the one behind it. -/
lemma triviaStart?_eq (floor keyColumn : Nat) {rounds stop : Nat} (inside : stop ≤ source.length)
    (enough : stop < rounds) : triviaStart? source floor keyColumn rounds stop =
      some (triviaStart source floor keyColumn stop) := by
  induction rounds generalizing stop with
  | zero => omega
  | succ rounds ih =>
    rw [triviaStart?, triviaStart]
    by_cases above : floor < stop
    · have before : lineStart source (stop - 1) ≤ stop - 1 := lineStart_le source (stop - 1)
      rw [if_pos above, dif_pos above, minus?_eq (by omega)]
      simp only [Option.bind_eq_bind, Option.bind_some, lineStart?_eq]
      rw [slice?_eq (by omega) inside]
      simp only [Option.bind_some, isTrivia?_eq]
      rw [ih (by omega) (by omega)]
      split <;> rfl
    · rw [if_neg above, dif_neg above]
      rfl

lemma searchStart?_eq (source : Bytes) (next : Nat) : searchStart? source next =
    some (if source.length ≤ next then source.length else lineStart source next) := by
  rw [searchStart?, lineStart?_eq]
  split <;> rfl

/-- What stands behind a `:` on its line lies within the source. -/
lemma slice?_line {colon : Nat} (mark : source[colon]? = some 58) :
    slice? source (colon + 1) (lineEnd source colon) =
      some ((source.drop (colon + 1)).takeWhile inLine) := by
  have ending := lineEnd_eq mark
  have front := List.takeWhile_prefix inLine (l := source.drop (colon + 1))
  have short := front.length_le
  obtain ⟨before, -⟩ := List.getElem?_eq_some_iff.mp mark
  rw [List.length_drop] at short
  rw [slice?_eq (by omega) (by omega), List.drop_take, ending, Nat.add_sub_cancel_left,
    ← List.prefix_iff_eq_take.mp front]

/-- The span of an entry is computed within the source. -/
lemma entrySpan?_eq (entry : Entry) {colon rounds : Nat} (mark : source[colon]? = some 58)
    (enough : source.length < rounds) :
    entrySpan? source rounds entry colon = some (entrySpan source entry colon) := by
  obtain ⟨short, -⟩ := List.getElem?_eq_some_iff.mp mark
  have nonempty : source.length ≠ 0 := by omega
  have same : min colon (source.length - 1) = colon := by omega
  have behind : slice? source colon source.length = some (source.drop colon) := by
    rw [slice?_eq (Nat.le_of_lt short) (Nat.le_refl _), List.take_length]
  have line := slice?_line mark
  rw [lineEnd] at line
  rw [entrySpan_eq entry short]
  simp only [entrySpan?, nonempty, same, behind, line, ↓reduceIte, Option.bind_eq_bind,
    Option.bind_some, trimStart?_eq, searchStart?_eq, lineStart?_eq]
  obtain ⟨-, upto⟩ : Boundary source _ ∧ _ := boundary_next entry.value.span.stop
  rw [minus?_eq (lineStart_le ..), Option.bind_some,
    triviaStart?_eq _ _ upto (Nat.lt_of_le_of_lt upto enough)]
  rfl

end ChartLift.Rewrite
