import ChartLift.Yaml.Content.Token
import Mathlib.Tactic.Lemma

/-!
# Texts that go on alike

Two texts share a stretch and differ behind it: the stretch ends with the `:` of an entry, a blank
behind it in both, or both texts end with it. A scanner that stays within the stretch on the one text
does on the other what it does here, only that its places are others.
-/

namespace ChartLift.Yaml.Content

/-! ## Two texts -/

/-- Where a stretch starts in each of two texts, and how many tokens come before it. -/
structure Shift where
  index : Nat
  index' : Nat
  line : Nat
  line' : Nat
  count : Nat
  count' : Nat

/-- Two texts that differ behind a stretch, and where the stretch starts in each. -/
structure Fork extends Shift where
  far : List Char
  far' : List Char
  blank : isBlankOrEnd far.head? = true
  blank' : isBlankOrEnd far'.head? = true

namespace Fork

variable (f : Fork)

/-- Both texts end with the stretch. -/
def Joined : Prop := f.far = [] ∧ f.far' = []

/-- What is ahead in the two texts: the same up to the end of the stretch, which is not reached yet
unless both texts end there. -/
def Ahead (xs xs' : List Char) : Prop :=
  ∃ near, xs = near ++ f.far ∧ xs' = near ++ f.far' ∧ (f.Joined ∨ near.getLast? = some ':')

/-- The stretch is not passed yet. -/
def Inside (c : Cursor) : Prop := f.Joined ∨ f.far.length < c.rest.length

/-- Two cursors at the same place of the stretch. -/
structure Twin (c c' : Cursor) : Prop where
  rest : f.Ahead c.rest c'.rest
  index : c.index + f.index' = c'.index + f.index
  line : c.line + f.line' = c'.line + f.line
  column : c'.column = c.column

/-- What is left of the stretch behind some of its characters. -/
lemma Ahead.drop {f : Fork} {xs xs' : List Char} (ahead : f.Ahead xs xs') {n : Nat}
    (inside : f.Joined ∨ f.far.length < (xs.drop n).length) :
    f.Ahead (xs.drop n) (xs'.drop n) := by
  obtain ⟨near, rfl, rfl, guarded⟩ := ahead
  rcases inside with joined | inside
  · refine ⟨near.drop n, ?_, ?_, .inl joined⟩
    · simp [joined.1]
    · simp [joined.2]
  · have within : n < near.length := by
      simp only [List.length_drop, List.length_append] at inside
      omega
    refine ⟨near.drop n, List.drop_append_of_le_length (by omega),
      List.drop_append_of_le_length (by omega), guarded.imp id fun last => ?_⟩
    rw [List.getLast?_drop, if_neg (by omega), last]

/-- The next character of the stretch is that of both texts; behind the `:` at its end the texts
part. -/
lemma Ahead.cons {f : Fork} {x : Char} {xs xs' : List Char} (ahead : f.Ahead (x :: xs) xs') :
    ∃ rest', xs' = x :: rest' ∧ (f.Ahead xs rest' ∨ x = ':' ∧ xs = f.far ∧ rest' = f.far') := by
  obtain ⟨near, eq, rfl, guarded⟩ := ahead
  cases near with
  | nil =>
    rcases guarded with joined | last
    · simp [joined.1] at eq
    · simp at last
  | cons y near =>
    obtain ⟨rfl, rfl⟩ : x = y ∧ xs = near ++ f.far := by simpa using eq
    refine ⟨near ++ f.far', rfl, ?_⟩
    cases near with
    | nil =>
      rcases guarded with joined | last
      · exact .inl ⟨[], rfl, rfl, .inl joined⟩
      · exact .inr ⟨by simpa using last, rfl, rfl⟩
    | cons z near =>
      exact .inl ⟨z :: near, rfl, rfl, guarded.imp id fun last => by simpa using last⟩

/-- The stretch is not passed where the texts go on alike. -/
lemma Ahead.inside {f : Fork} {xs xs' : List Char} (ahead : f.Ahead xs xs') :
    f.Joined ∨ f.far.length < xs.length := by
  obtain ⟨near, rfl, rfl, joined | last⟩ := ahead
  · exact .inl joined
  · right
    cases near with
    | nil => simp at last
    | cons y near => simp only [List.length_append, List.length_cons]; omega

/-- Where nothing is ahead in the one text, nothing is in the other. -/
lemma Ahead.nil {f : Fork} {xs' : List Char} (ahead : f.Ahead [] xs') : xs' = [] := by
  obtain ⟨near, eq, rfl, guarded⟩ := ahead
  obtain ⟨rfl, none⟩ : near = [] ∧ f.far = [] := by simpa using eq
  rcases guarded with joined | last
  · simp [joined.2]
  · simp at last

/-- The next characters are the same. -/
lemma Ahead.head? {f : Fork} {xs xs' : List Char} (ahead : f.Ahead xs xs') :
    xs'.head? = xs.head? := by
  cases xs with
  | nil => simp [ahead.nil]
  | cons x xs =>
    obtain ⟨rest', rfl, -⟩ := ahead.cons
    rfl

/-- The characters behind the next ones are both blank, or the same. -/
lemma Ahead.second {f : Fork} {xs xs' : List Char} (ahead : f.Ahead xs xs') :
    xs'[1]? = xs[1]? ∨ isBlankOrEnd xs[1]? = true ∧ isBlankOrEnd xs'[1]? = true := by
  cases xs with
  | nil => simp [ahead.nil]
  | cons x xs =>
    obtain ⟨rest', rfl, later | ⟨-, rfl, rfl⟩⟩ := ahead.cons
    · left
      simpa [List.head?_eq_getElem?] using later.head?
    · right
      simpa [List.head?_eq_getElem?] using And.intro f.blank f.blank'

/-- Characters other than a `:` stand ahead in both texts or in none, and the stretch goes on behind
them. -/
lemma Ahead.marks {f : Fork} {marks : List Char} (other : ':' ∉ marks) {xs xs' : List Char}
    (ahead : f.Ahead xs xs') :
    marks.isPrefixOf xs' = marks.isPrefixOf xs
      ∧ (marks.isPrefixOf xs = true → f.Ahead (xs.drop marks.length) (xs'.drop marks.length)) := by
  induction marks generalizing xs xs' with
  | nil => exact ⟨rfl, fun _ => ahead⟩
  | cons m marks ih =>
    obtain ⟨ne, others⟩ : ':' ≠ m ∧ ':' ∉ marks := by simpa using other
    cases xs with
    | nil => simp [ahead.nil]
    | cons x xs =>
      obtain ⟨rest', rfl, later | ⟨rfl, -⟩⟩ := ahead.cons
      · obtain ⟨same, on⟩ := ih others later
        simp only [List.isPrefixOf, same, Bool.and_eq_true]
        exact ⟨trivial, fun starts => on starts.2⟩
      · have : (m == ':') = false := by simpa using ne.symm
        simp only [List.isPrefixOf, this, Bool.false_and, true_and]
        exact fun starts => nomatch starts

/-- Some characters ahead are the same in both texts. -/
lemma Ahead.take {f : Fork} {xs xs' : List Char} (ahead : f.Ahead xs xs') {n : Nat}
    (inside : f.Joined ∨ f.far.length < (xs.drop n).length) : xs'.take n = xs.take n := by
  obtain ⟨near, rfl, rfl, -⟩ := ahead
  rcases inside with joined | inside
  · rw [joined.1, joined.2]
  · have within : n ≤ near.length := by
      simp only [List.length_drop, List.length_append] at inside
      omega
    rw [List.take_append_of_le_length within, List.take_append_of_le_length within]

/-- A search that ends within the stretch finds the same in both texts. -/
lemma Ahead.takeWhile {f : Fork} {xs xs' : List Char} (ahead : f.Ahead xs xs') (fits : Char → Bool)
    (inside : f.Joined ∨ f.far.length < (xs.drop (xs.takeWhile fits).length).length) :
    xs'.takeWhile fits = xs.takeWhile fits := by
  obtain ⟨near, rfl, rfl, -⟩ := ahead
  rcases inside with joined | inside
  · rw [joined.1, joined.2]
  · have short : (near.takeWhile fits).length ≠ near.length := by
      intro all
      have whole : near.takeWhile fits = near :=
        (List.takeWhile_prefix fits).eq_of_length all
      rw [List.takeWhile_append, if_pos all] at inside
      simp only [List.length_drop, List.length_append] at inside
      omega
    rw [List.takeWhile_append, List.takeWhile_append, if_neg short, if_neg short]

/-- A search for a `:`, among others, ends within the stretch. -/
lemma Ahead.inside_takeWhile {f : Fork} {xs xs' : List Char} {fits : Char → Bool}
    (colon : fits ':' = false) (ahead : f.Ahead xs xs') :
    f.Joined ∨ f.far.length < (xs.drop (xs.takeWhile fits).length).length := by
  induction xs generalizing xs' with
  | nil => exact ahead.inside
  | cons x xs ih =>
    cases fit : fits x with
    | false => simpa [fit] using ahead.inside
    | true =>
      obtain ⟨rest', rfl, later | ⟨rfl, -⟩⟩ := ahead.cons
      · simpa [fit] using ih later
      · simp [colon] at fit

end Fork

open Fork

/-! ## Cursors -/

variable {f : Fork} {c c' d : Cursor}

namespace Fork

lemma Inside.mono (inside : f.Inside d) (le : d.rest.length ≤ c.rest.length) : f.Inside c :=
  inside.imp id fun lt => Nat.lt_of_lt_of_le lt le

lemma Inside.of_advance {n : Nat} (inside : f.Inside (c.advance n)) : f.Inside c :=
  inside.mono (by simp [Cursor.advance])

namespace Twin

lemma advance (twin : f.Twin c c') {n : Nat} (inside : f.Inside (c.advance n)) :
    f.Twin (c.advance n) (c'.advance n) where
  rest := twin.rest.drop inside
  index := by have := twin.index; simp only [Cursor.advance]; omega
  line := twin.line
  column := by simp [Cursor.advance, twin.column]

lemma breakLine (twin : f.Twin c c') {n : Nat} (inside : f.Inside (c.breakLine n)) :
    f.Twin (c.breakLine n) (c'.breakLine n) where
  rest := twin.rest.drop inside
  index := by have := twin.index; simp only [Cursor.breakLine]; omega
  line := by have := twin.line; simp only [Cursor.breakLine]; omega
  column := rfl

lemma peek (twin : f.Twin c c') : c'.peek = c.peek := twin.rest.head?

lemma sees (twin : f.Twin c c') (x : Char) : c'.sees x = c.sees x := by
  simp only [Cursor.sees, twin.peek]

lemma atEnd (twin : f.Twin c c') : c'.atEnd = c.atEnd := by
  have same : c'.rest.head? = c.rest.head? := twin.peek
  simp only [Cursor.atEnd]
  revert same
  cases c.rest <;> cases c'.rest <;> simp

lemma blankNext (twin : f.Twin c c') : isBlankOrEnd (c'.peekAt 1) = isBlankOrEnd (c.peekAt 1) := by
  rcases twin.rest.second with eq | ⟨blank, blank'⟩
  · simp only [Cursor.peekAt, eq]
  · simp only [Cursor.peekAt, blank, blank']

lemma ahead (twin : f.Twin c c') {fits : Char → Bool} (inside : f.Inside (c.skipWhile fits)) :
    c'.ahead fits = c.ahead fits :=
  twin.rest.takeWhile fits inside

lemma skipWhile (twin : f.Twin c c') {fits : Char → Bool} (inside : f.Inside (c.skipWhile fits)) :
    f.Twin (c.skipWhile fits) (c'.skipWhile fits) := by
  simp only [Cursor.skipWhile, twin.ahead inside]
  exact twin.advance inside

lemma inside (twin : f.Twin c c') : f.Inside c := twin.rest.inside

/-- No character but a `:` ends the stretch. -/
lemma advance_one (twin : f.Twin c c') {x : Char} (next : c.peek = some x) (other : x ≠ ':') :
    f.Twin (c.advance 1) (c'.advance 1) := by
  refine twin.advance ?_
  have first := twin.rest
  cases rest : c.rest with
  | nil => simp [Cursor.peek, rest] at next
  | cons y later =>
    obtain rfl : y = x := by simpa [Cursor.peek, rest] using next
    rw [rest] at first
    obtain ⟨rest', -, second | ⟨colon, -⟩⟩ := first.cons
    · simpa only [Inside, Cursor.advance, rest, List.drop_succ_cons, List.drop_zero]
        using second.inside
    · exact absurd colon other

/-- A search for a `:`, among others, ends within the stretch. -/
lemma inside_skipWhile (twin : f.Twin c c') {fits : Char → Bool} (colon : fits ':' = false) :
    f.Inside (c.skipWhile fits) :=
  twin.rest.inside_takeWhile colon

end Twin

end Fork

/-! ## Breaks, comments and markers -/

section Scanners

lemma advance_lt {x : Char} (next : c.peek = some x) :
    (c.advance 1).rest.length < c.rest.length := by
  cases rest : c.rest with
  | nil => simp [Cursor.peek, rest] at next
  | cons y later => simp [Cursor.advance, rest]

/-- Behind the comment ahead, if there is one. -/
def pastComment (c : Cursor) : Cursor := if c.sees '#' then c.skipWhile inLine else c

lemma advance_le (c : Cursor) (n : Nat) :
    (c.advance n).rest.length ≤ c.rest.length := by
  simp [Cursor.advance]

lemma skipWhile_le (c : Cursor) (fits : Char → Bool) :
    (c.skipWhile fits).rest.length ≤ c.rest.length := advance_le c _

lemma pastComment_le (c : Cursor) : (pastComment c).rest.length ≤ c.rest.length := by
  unfold pastComment
  split
  · exact skipWhile_le c _
  · exact Nat.le_refl _

lemma Fork.Twin.pastComment (twin : f.Twin c c') (inside : f.Inside (pastComment c)) :
    f.Twin (Content.pastComment c) (Content.pastComment c') := by
  simp only [Content.pastComment, twin.sees] at inside ⊢
  split at inside <;> rename_i comment
  · simpa only [if_pos comment] using twin.skipWhile inside
  · simpa only [if_neg comment] using twin

/-- The break ahead, by the next two characters. -/
lemma takeBreak_cons {x : Char} {later : List Char} (rest : c.rest = x :: later) :
    takeBreak c =
      if x = '\r' ∧ later.head? = some '\n' then (['\n'], c.breakLine 2)
      else if x = '\u2028' ∨ x = '\u2029' then ([x], c.breakLine 1)
      else if isBreak x then (['\n'], c.breakLine 1)
      else ([], c) := by
  by_cases long : x = '\r' ∧ later.head? = some '\n'
  · obtain ⟨rfl, feed⟩ := long
    obtain ⟨tail, rfl⟩ : ∃ tail, later = '\n' :: tail := by
      cases later with
      | nil => simp at feed
      | cons y tail => exact ⟨tail, by simpa using feed⟩
    simp [takeBreak, rest]
  · rw [if_neg long]
    unfold takeBreak
    split
    case h_1 tail eq =>
      exact absurd (by rw [rest] at eq; simp_all) long
    case h_2 y tail _ eq =>
      obtain ⟨rfl, -⟩ : x = y ∧ later = tail := by simpa [rest] using eq
      rfl
    case h_3 eq => simp [rest] at eq

lemma takeBreak_lt {x : Char} (next : c.peek = some x) (breaks : isBreak x = true) :
    (takeBreak c).2.rest.length < c.rest.length := by
  cases rest : c.rest with
  | nil => simp [Cursor.peek, rest] at next
  | cons y later =>
    obtain rfl : y = x := by simpa [Cursor.peek, rest] using next
    rw [takeBreak_cons rest, if_pos breaks, ← rest]
    split
    · simp only [Cursor.breakLine, rest, List.length_drop, List.length_cons]; omega
    · split <;> simp [Cursor.breakLine, rest]

lemma takeBreak_le (c : Cursor) : (takeBreak c).2.rest.length ≤ c.rest.length := by
  cases rest : c.rest with
  | nil => simp [takeBreak, rest]
  | cons x later =>
    rw [takeBreak_cons rest, ← rest]
    split
    · simp [Cursor.breakLine]
    · split
      · simp [Cursor.breakLine]
      · split <;> simp [Cursor.breakLine]

lemma takeBreak_twin (twin : f.Twin c c') (inside : f.Inside (takeBreak c).2) :
    (takeBreak c').1 = (takeBreak c).1 ∧ f.Twin (takeBreak c).2 (takeBreak c').2 := by
  have first := twin.rest
  cases rest : c.rest with
  | nil =>
    rw [rest] at first
    have nothing (d : Cursor) (none : d.rest = []) : takeBreak d = ([], d) := by
      simp [takeBreak, none]
    rw [nothing c rest, nothing c' first.nil]
    exact ⟨rfl, twin⟩
  | cons x later =>
    rw [rest] at first
    obtain ⟨later', rest', second⟩ := first.cons
    have pair : (x = '\r' ∧ later'.head? = some '\n') ↔ (x = '\r' ∧ later.head? = some '\n') := by
      rcases second with second | ⟨rfl, -⟩
      · rw [second.head?]
      · simp
    rw [takeBreak_cons rest] at inside ⊢
    rw [takeBreak_cons rest']
    simp only [pair]
    split at inside
    case isTrue long => simpa [long] using twin.breakLine inside
    case isFalse short =>
      rw [if_neg short, if_neg short]
      split at inside
      case isTrue odd => simpa [odd] using twin.breakLine inside
      case isFalse plain =>
        rw [if_neg plain, if_neg plain]
        split at inside
        case isTrue breaks => simpa [breaks] using twin.breakLine inside
        case isFalse none => simpa [none] using twin

/-- A line break does not end the stretch. -/
lemma inside_takeBreak (twin : f.Twin c c') {x : Char} (next : c.peek = some x)
    (breaks : isBreak x = true) : f.Inside (takeBreak c).2 := by
  have one : f.Inside (c.advance 1) :=
    (twin.advance_one next (by rintro rfl; simp [isBreak] at breaks)).inside
  cases rest : c.rest with
  | nil => simp [Cursor.peek, rest] at next
  | cons y later =>
    obtain rfl : y = x := by simpa [Cursor.peek, rest] using next
    rw [takeBreak_cons rest, if_pos breaks]
    split
    case isTrue long =>
      have second : (c.advance 1).peek = some '\n' := by
        simpa [Cursor.peek, Cursor.advance, rest] using long.2
      have two := ((twin.advance one).advance_one second (by decide)).inside
      simpa [Inside, Cursor.advance, Cursor.breakLine] using two
    case isFalse =>
      split <;> exact one

/-- A document marker stands ahead in both texts or in none. -/
lemma atMarker_twin (twin : f.Twin c c') : atMarker c' = atMarker c := by
  have start (marks : List Char) (other : ':' ∉ marks) :
      c'.startsWith marks = c.startsWith marks := (twin.rest.marks other).1
  have behind (marks : List Char) (other : ':' ∉ marks) (three : marks.length = 3)
      (starts : c.startsWith marks = true) : c'.peekAt 3 = c.peekAt 3 := by
    have := ((twin.rest.marks other).2 starts).head?
    rwa [List.head?_drop, List.head?_drop, three] at this
  simp only [atMarker, twin.column, start ['-', '-', '-'] (by decide), start ['.', '.', '.'] (by decide)]
  by_cases dashes : c.startsWith ['-', '-', '-'] = true
  · rw [behind _ (by decide) rfl dashes]
  · by_cases dots : c.startsWith ['.', '.', '.'] = true
    · rw [behind _ (by decide) rfl dots]
    · simp [dashes, dots]

lemma toLineEnd_le {c d : Cursor} (reads : toLineEnd c = some d) : d.rest.length ≤ c.rest.length := by
  simp only [toLineEnd, Option.ite_none_right_eq_some, Option.some.injEq] at reads
  obtain ⟨-, rfl⟩ := reads
  exact Nat.le_trans (pastComment_le _) (skipWhile_le c _)

lemma toLineEnd_twin (twin : f.Twin c c') (reads : toLineEnd c = some d) (inside : f.Inside d) :
    ∃ d', toLineEnd c' = some d' ∧ f.Twin d d' := by
  simp only [toLineEnd, Option.ite_none_right_eq_some, Option.some.injEq] at reads ⊢
  obtain ⟨ends, rfl⟩ := reads
  have line := (twin.skipWhile (inside.mono (pastComment_le _))).pastComment inside
  exact ⟨_, ⟨(congrArg isLineEnd line.peek).trans ends, rfl⟩, line⟩

end Scanners

end ChartLift.Yaml.Content
