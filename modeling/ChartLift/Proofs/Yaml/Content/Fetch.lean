import ChartLift.Proofs.Yaml.Content.Tag
import Mathlib.Data.List.Forall2

/-!
# Tokens of texts that go on alike

Readers that have come equally far in two texts take the same token from a stretch that the texts
share. Each token takes a character, or it is the last one.
-/

namespace ChartLift.Yaml.Content

open Fork

namespace Shift

variable (f : Shift)

/-! ## Readers that have come equally far -/

/-- Two places where a key may have begun: the same token of the stretch. -/
structure KeyTwin (key key' : PendingKey) : Prop where
  required : key'.required = key.required
  number : key.number + f.count' = key'.number + f.count
  index : key.mark.index + f.index' = key'.mark.index + f.index
  line : key.mark.line + f.line' = key'.mark.line + f.line
  column : key'.mark.column = key.mark.column

/-- Two readers that have the same in mind, at whatever places. -/
structure Alike (l l' : Lexer) : Prop where
  queue : l'.queue.map Token.kind = l.queue.map Token.kind
  emitted : l.emitted + f.count' = l'.emitted + f.count
  indent : l'.indent = l.indent
  outer : l'.outer = l.outer
  keys : List.Forall₂ (Option.Rel f.KeyTwin) l.keys l'.keys
  keyAllowed : l'.keyAllowed = l.keyAllowed
  finished : l'.finished = l.finished

end Shift

/-- Two readers that have come equally far in the stretch. -/
structure Fork.Abreast (f : Fork) (l l' : Lexer) : Prop extends f.Alike l l' where
  cursor : f.Twin l.cursor l'.cursor

variable {f : Fork} {l l' m : Lexer}

lemma forall₂_tail {α β : Type} {r : α → β → Prop} {xs : List α} {ys : List β}
    (both : List.Forall₂ r xs ys) : List.Forall₂ r xs.tail ys.tail := by
  cases both with
  | nil => exact .nil
  | cons _ rest => exact rest

lemma forall₂_any {α β : Type} {r : α → β → Prop} {xs : List α} {ys : List β} {p : α → Bool}
    {q : β → Bool} (both : List.Forall₂ r xs ys) (same : ∀ x y, r x y → q y = p x) :
    ys.any q = xs.any p := by
  induction both with
  | nil => rfl
  | cons first _ ih => simp only [List.any_cons, same _ _ first, ih]

namespace Shift.Alike

variable {f : Shift}

lemma queue_length (alike : f.Alike l l') : l'.queue.length = l.queue.length := by
  simpa using congrArg List.length alike.queue

lemma nextNumber (alike : f.Alike l l') : l.nextNumber + f.count' = l'.nextNumber + f.count := by
  have := alike.emitted
  simp only [Lexer.nextNumber, alike.queue_length]
  omega

lemma inBlock (alike : f.Alike l l') : l'.inBlock = l.inBlock := by
  simp only [Lexer.inBlock, alike.keys.length_eq]

lemma push (alike : f.Alike l l') (kind : TokenKind) (place place' : Nat) :
    f.Alike (l.push kind place) (l'.push kind place') :=
  { alike with queue := by simp [Lexer.push, alike.queue] }

lemma insert (alike : f.Alike l l') {number number' : Nat}
    (same : number + f.count' = number' + f.count) (kind : TokenKind) (place place' : Nat) :
    f.Alike (l.insert number kind place) (l'.insert number' kind place') := by
  -- the token goes equally far into both queues
  have at_ : number' - l'.emitted = number - l.emitted := by
    have := alike.emitted
    omega
  exact { alike with
    queue := by simp [Lexer.insert, at_, List.map_take, List.map_drop, alike.queue] }

/-- Readers at other cursors are as alike. -/
lemma move (alike : f.Alike l l') (c c' : Cursor) :
    f.Alike { l with cursor := c } { l' with cursor := c' } :=
  { alike with }

lemma openBlock (alike : f.Alike l l') (column : Nat) {number number' : Option Nat}
    (same : Option.Rel (fun n n' => n + f.count' = n' + f.count) number number') (kind : TokenKind)
    (place place' : Nat) :
    f.Alike (l.openBlock column number kind place) (l'.openBlock column number' kind place') := by
  unfold Lexer.openBlock
  rw [alike.inBlock, alike.indent, alike.outer]
  split
  · have inner : f.Alike { l with outer := l.indent :: l.outer, indent := column }
        { l' with outer := l.indent :: l.outer, indent := column } :=
      { alike with outer := rfl, indent := rfl }
    cases same with
    | some same => exact inner.insert same kind place place'
    | none => exact inner.push kind place place'
  · exact alike

lemma closeBlocksOver (alike : f.Alike l l') (column : Int) (outer : List Int) :
    f.Alike (Lexer.closeBlocksOver column l outer) (Lexer.closeBlocksOver column l' outer) := by
  induction outer generalizing l l' with
  | nil => exact alike
  | cons indent outer ih =>
    simp only [Lexer.closeBlocksOver, alike.indent]
    split
    · exact ih { alike.push .blockEnd l.cursor.index l'.cursor.index with indent := rfl, outer := rfl }
    · exact alike

lemma closeBlocks (alike : f.Alike l l') (column : Int) :
    f.Alike (l.closeBlocks column) (l'.closeBlocks column) := by
  unfold Lexer.closeBlocks
  rw [alike.inBlock, alike.outer]
  split
  · exact alike.closeBlocksOver column l.outer
  · exact alike

lemma dropKey (alike : f.Alike l l') (drops : l.dropKey = some m) :
    ∃ m', l'.dropKey = some m' ∧ f.Alike m m' := by
  unfold Lexer.dropKey at drops ⊢
  have keys := alike.keys
  cases first : l.keys with
  | nil =>
    rw [first] at keys
    simp only [first, Option.some.injEq] at drops
    obtain rfl := drops
    simp only [List.forall₂_nil_left_iff.mp keys]
    exact ⟨l', rfl, alike⟩
  | cons key rest =>
    rw [first] at keys
    obtain ⟨key', rest', twin, twins, eq⟩ := List.forall₂_cons_left_iff.mp keys
    cases twin with
    | none =>
      simp only [first, Option.some.injEq] at drops
      obtain rfl := drops
      simp only [eq]
      exact ⟨l', rfl, alike⟩
    | @some k k' twin =>
      simp only [first] at drops
      simp only [eq, twin.required]
      split at drops
      · simp at drops
      case isFalse free =>
        simp only [Option.some.injEq] at drops
        obtain rfl := drops
        exact ⟨{ l' with keys := none :: rest' }, by rw [if_neg free],
          { alike with keys := .cons .none twins }⟩

end Shift.Alike

/-! ## Where cursors stand -/

/-- Behind a byte order mark, blanks and a comment. -/
def pastBlanks (l : Lexer) : Cursor :=
  let c := l.cursor
  let c := if c.column == 0 && c.sees '\ufeff' then c.advance 1 else c
  pastComment (c.skipWhile fun x => x == ' ' || ((!l.inBlock || !l.keyAllowed) && x == '\t'))

lemma toToken_succ (fuel : Nat) (l : Lexer) :
    toToken (fuel + 1) l =
      if (pastBlanks l).peek.any isBreak then
        toToken fuel
          { l with cursor := (takeBreak (pastBlanks l)).2, keyAllowed := l.keyAllowed || l.inBlock }
      else { l with cursor := pastBlanks l } := rfl

lemma pastBlanks_le (l : Lexer) : (pastBlanks l).rest.length ≤ l.cursor.rest.length := by
  refine Nat.le_trans (pastComment_le _) (Nat.le_trans (skipWhile_le _ _) ?_)
  split
  · exact advance_le _ 1
  · exact Nat.le_refl _

lemma toToken_le (fuel : Nat) (l : Lexer) :
    (toToken fuel l).cursor.rest.length ≤ l.cursor.rest.length := by
  induction fuel generalizing l with
  | zero => exact Nat.le_refl _
  | succ fuel ih =>
    rw [toToken_succ]
    split
    · exact Nat.le_trans (ih _) (Nat.le_trans (takeBreak_le _) (pastBlanks_le l))
    · exact pastBlanks_le l

/-- Giving up a key leaves the cursor. -/
lemma Lexer.dropKey_cursor (drops : l.dropKey = some m) : m.cursor = l.cursor := by
  unfold Lexer.dropKey at drops
  repeat' split at drops
  · simp at drops
  · obtain rfl : _ = m := by simpa using drops
    rfl
  · obtain rfl : l = m := by simpa using drops
    rfl

/-- Giving up what can no longer be keys leaves the cursor. -/
lemma Lexer.dropStale_cursor (drops : l.dropStale = some m) : m.cursor = l.cursor := by
  simp only [Lexer.dropStale, Option.ite_none_left_eq_some, Option.some.injEq] at drops
  rw [← drops.2]

/-- Noting a key leaves the cursor. -/
lemma Lexer.saveKey_cursor (saves : l.saveKey = some m) : m.cursor = l.cursor := by
  unfold Lexer.saveKey at saves
  split at saves
  · obtain ⟨k, drops, result⟩ := Option.bind_eq_some_iff.mp saves
    obtain rfl : _ = m := by simpa using result
    exact (Lexer.dropKey_cursor drops : k.cursor = l.cursor)
  · obtain rfl : l = m := by simpa using saves
    rfl

lemma Lexer.closeBlocksOver_cursor (column : Int) (l : Lexer) (outer : List Int) :
    (Lexer.closeBlocksOver column l outer).cursor = l.cursor := by
  induction outer generalizing l with
  | nil => rfl
  | cons indent outer ih =>
    simp only [Lexer.closeBlocksOver]
    split
    · rw [ih]; rfl
    · rfl

/-- Closing blocks leaves the cursor. -/
lemma Lexer.closeBlocks_cursor (l : Lexer) (column : Int) :
    (l.closeBlocks column).cursor = l.cursor := by
  unfold Lexer.closeBlocks
  split
  · exact l.closeBlocksOver_cursor column l.outer
  · rfl

/-- Opening a block leaves the cursor. -/
lemma Lexer.openBlock_cursor (l : Lexer) (column : Nat) (number : Option Nat) (kind : TokenKind)
    (place : Nat) : (l.openBlock column number kind place).cursor = l.cursor := by
  unfold Lexer.openBlock
  split
  · cases number <;> rfl
  · rfl

namespace Fork.Abreast

lemma closeBlocks (abreast : f.Abreast l l') (column : Int) :
    f.Abreast (l.closeBlocks column) (l'.closeBlocks column) where
  toAlike := abreast.toAlike.closeBlocks column
  cursor := by
    rw [l.closeBlocks_cursor, l'.closeBlocks_cursor]
    exact abreast.cursor

lemma openBlock (abreast : f.Abreast l l') (column : Nat) (kind : TokenKind) (place place' : Nat) :
    f.Abreast (l.openBlock column none kind place) (l'.openBlock column none kind place') where
  toAlike := abreast.toAlike.openBlock column .none kind place place'
  cursor := by
    rw [l.openBlock_cursor, l'.openBlock_cursor]
    exact abreast.cursor

lemma pushUpTo (abreast : f.Abreast l l') (kind : TokenKind) {c c' : Cursor} (twin : f.Twin c c') :
    f.Abreast (l.pushUpTo kind c) (l'.pushUpTo kind c') where
  toAlike := (abreast.toAlike.push kind l.cursor.index l'.cursor.index).move c c'
  cursor := twin

lemma pushHere (abreast : f.Abreast l l') (kind : TokenKind) {count : Nat}
    (inside : f.Inside (l.cursor.advance count)) :
    f.Abreast (l.pushHere kind count) (l'.pushHere kind count) :=
  abreast.pushUpTo kind (abreast.cursor.advance inside)

/-- Readers go on abreast when the same keys may begin. -/
lemma allow (abreast : f.Abreast l l') (allowed : Bool) :
    f.Abreast { l with keyAllowed := allowed } { l' with keyAllowed := allowed } :=
  { abreast with keyAllowed := rfl }

lemma dropKey (abreast : f.Abreast l l') (drops : l.dropKey = some m) :
    ∃ m', l'.dropKey = some m' ∧ f.Abreast m m' := by
  obtain ⟨m', drops', alike⟩ := abreast.toAlike.dropKey drops
  refine ⟨m', drops', alike, ?_⟩
  rw [Lexer.dropKey_cursor drops, Lexer.dropKey_cursor drops']
  exact abreast.cursor

lemma saveKey (abreast : f.Abreast l l') (saves : l.saveKey = some m) :
    ∃ m', l'.saveKey = some m' ∧ f.Abreast m m' := by
  unfold Lexer.saveKey at saves ⊢
  rw [abreast.keyAllowed, abreast.inBlock, abreast.indent, abreast.cursor.column]
  split at saves
  case isTrue allowed =>
    rw [if_pos allowed]
    obtain ⟨k, drops, result⟩ := Option.bind_eq_some_iff.mp saves
    obtain ⟨k', drops', behind⟩ := abreast.dropKey drops
    simp only [Option.pure_def, Option.some.injEq] at result
    obtain rfl := result
    simp only [drops', Option.bind_eq_bind, Option.bind_some, Option.pure_def, Option.some.injEq,
      exists_eq_left']
    have place := behind.cursor
    exact { behind with
      keys := .cons (.some ⟨rfl, behind.nextNumber, place.index, place.line, place.column⟩)
        (forall₂_tail behind.keys) }
  case isFalse closed =>
    rw [if_neg closed]
    obtain rfl : l = m := by simpa using saves
    exact ⟨l', rfl, abreast⟩

lemma isStale (cursor : f.Twin l.cursor l'.cursor) {key key' : PendingKey}
    (twin : f.KeyTwin key key') : l'.isStale key' = l.isStale key := by
  have := twin.index
  have := twin.line
  have := cursor.index
  have := cursor.line
  simp only [Lexer.isStale]
  congr 1
  · exact decide_eq_decide.mpr (by omega)
  · exact decide_eq_decide.mpr (by omega)

lemma dropStale (abreast : f.Abreast l l') (drops : l.dropStale = some m) :
    ∃ m', l'.dropStale = some m' ∧ f.Abreast m m' := by
  have stale {key key' : PendingKey} (twin : f.KeyTwin key key') :
      l'.isStale key' = l.isStale key := isStale abreast.cursor twin
  simp only [Lexer.dropStale, Option.ite_none_left_eq_some, Option.some.injEq] at drops ⊢
  obtain ⟨fresh, rfl⟩ := drops
  refine ⟨_, ⟨?_, rfl⟩, { abreast with keys := ?_ }⟩
  · rw [forall₂_any abreast.keys]
    · exact fresh
    · rintro key key' (@⟨k, k', twin⟩ | _)
      · simp only [twin.required, stale twin]
      · rfl
  · refine List.forall₂_map_left_iff.mpr (List.forall₂_map_right_iff.mpr (abreast.keys.imp ?_))
    rintro key key' (@⟨k, k', twin⟩ | _)
    · simp only [Option.filter, stale twin]
      split
      · exact .some twin
      · exact .none
    · exact .none

lemma pastBlanks (abreast : f.Abreast l l') (inside : f.Inside (Content.pastBlanks l)) :
    f.Twin (Content.pastBlanks l) (Content.pastBlanks l') := by
  have mark : f.Twin
      (if l.cursor.column == 0 && l.cursor.sees '\ufeff' then l.cursor.advance 1 else l.cursor)
      (if l'.cursor.column == 0 && l'.cursor.sees '\ufeff' then l'.cursor.advance 1 else l'.cursor) := by
    rw [abreast.cursor.column, abreast.cursor.sees]
    split
    case isTrue mark =>
      have next : l.cursor.peek = some '\ufeff' := by simp_all [Cursor.sees]
      exact abreast.cursor.advance_one next (by decide)
    case isFalse => exact abreast.cursor
  simp only [Content.pastBlanks, abreast.inBlock, abreast.keyAllowed] at inside ⊢
  exact (mark.skipWhile (mark.inside_skipWhile (by simp))).pastComment inside

/-- The place of the next token is one of the stretch for both readers, or none. -/
lemma toToken (abreast : f.Abreast l l') {fuel fuel' : Nat} (enough : l.cursor.rest.length < fuel)
    (enough' : l'.cursor.rest.length < fuel') (inside : f.Inside (toToken fuel l).cursor) :
    f.Abreast (Content.toToken fuel l) (Content.toToken fuel' l') := by
  induction fuel generalizing l l' fuel' with
  | zero => omega
  | succ fuel ih =>
    obtain ⟨fuel', rfl⟩ : ∃ n, fuel' = n + 1 := ⟨fuel' - 1, by omega⟩
    rw [toToken_succ] at inside ⊢
    rw [toToken_succ]
    by_cases breaks : (Content.pastBlanks l).peek.any isBreak = true
    · rw [if_pos breaks] at inside ⊢
      have blanks := abreast.pastBlanks (inside.mono (Nat.le_trans (toToken_le _ _) (takeBreak_le _)))
      obtain ⟨x, next, ends⟩ : ∃ x, (Content.pastBlanks l).peek = some x ∧ isBreak x = true := by
        simpa [Option.any_eq_true] using breaks
      have line := (takeBreak_twin blanks (inside_takeBreak blanks next ends)).2
      have := takeBreak_lt next ends
      have := takeBreak_lt (blanks.peek.trans next) ends
      have := pastBlanks_le l
      have := pastBlanks_le l'
      rw [blanks.peek, if_pos breaks]
      refine ih ?_ (by simp only; omega) (by simp only; omega) inside
      exact { abreast with
        cursor := line
        keyAllowed := by simp only [abreast.keyAllowed, abreast.inBlock] }
    · rw [if_neg breaks] at inside ⊢
      have blanks := abreast.pastBlanks inside
      rw [blanks.peek, if_neg breaks]
      exact { abreast with cursor := blanks }

/-! ## Tokens -/

lemma streamEnd (abreast : f.Abreast l l') (reads : l.streamEnd = some m) :
    ∃ m', l'.streamEnd = some m' ∧ f.Abreast m m' := by
  obtain ⟨k, drops, result⟩ := Option.bind_eq_some_iff.mp reads
  obtain ⟨k', drops', behind⟩ := (abreast.closeBlocks (-1)).dropKey drops
  obtain rfl : _ = m := by simpa using result
  refine ⟨_, by simp only [Lexer.streamEnd, drops', Option.bind_eq_bind, Option.bind_some]; rfl, ?_⟩
  exact { behind with
    toAlike := { behind.toAlike.push .streamEnd k.cursor.index k'.cursor.index with
      keyAllowed := rfl, finished := rfl } }

lemma directiveLine (abreast : f.Abreast l l') (mark : l.cursor.peek = some '%')
    (reads : l.directiveLine = some m) (inside : f.Inside m.cursor) :
    ∃ m', l'.directiveLine = some m' ∧ f.Abreast m m' := by
  obtain ⟨k, drops, reads⟩ := Option.bind_eq_some_iff.mp reads
  obtain ⟨⟨kind, c⟩, line, result⟩ := Option.bind_eq_some_iff.mp reads
  obtain ⟨k', drops', behind⟩ := (abreast.closeBlocks (-1)).dropKey drops
  obtain rfl : _ = m := by simpa using result
  have next : k.cursor.peek = some '%' := by
    rw [Lexer.dropKey_cursor drops, l.closeBlocks_cursor, mark]
  obtain ⟨c', line', twin⟩ :=
    directive_twin (behind.cursor.advance_one next (by decide)) line inside
  exact ⟨_, by
    simp only [Lexer.directiveLine, drops', line', Option.bind_eq_bind, Option.bind_some]; rfl,
    (behind.pushUpTo kind twin).allow false⟩

lemma marker (abreast : f.Abreast l l') {kind : TokenKind} (reads : l.marker kind = some m)
    (inside : f.Inside m.cursor) : ∃ m', l'.marker kind = some m' ∧ f.Abreast m m' := by
  obtain ⟨k, drops, result⟩ := Option.bind_eq_some_iff.mp reads
  obtain ⟨k', drops', behind⟩ := (abreast.closeBlocks (-1)).dropKey drops
  obtain rfl : _ = m := by simpa using result
  exact ⟨_, by simp only [Lexer.marker, drops', Option.bind_eq_bind, Option.bind_some]; rfl,
    (behind.pushHere kind inside).allow false⟩

lemma openFlow (abreast : f.Abreast l l') {kind : TokenKind} (reads : l.openFlow kind = some m)
    (inside : f.Inside m.cursor) : ∃ m', l'.openFlow kind = some m' ∧ f.Abreast m m' := by
  obtain ⟨k, saves, result⟩ := Option.bind_eq_some_iff.mp reads
  obtain ⟨k', saves', behind⟩ := abreast.saveKey saves
  obtain rfl : _ = m := by simpa using result
  refine ⟨_, by simp only [Lexer.openFlow, saves', Option.bind_eq_bind, Option.bind_some]; rfl, ?_⟩
  exact { (behind.pushHere kind inside).allow true with keys := .cons .none behind.keys }

lemma closeFlow (abreast : f.Abreast l l') {kind : TokenKind} (reads : l.closeFlow kind = some m)
    (inside : f.Inside m.cursor) : ∃ m', l'.closeFlow kind = some m' ∧ f.Abreast m m' := by
  obtain ⟨k, drops, result⟩ := Option.bind_eq_some_iff.mp reads
  obtain ⟨k', drops', behind⟩ := abreast.dropKey drops
  obtain rfl : _ = m := by simpa using result
  refine ⟨_, by simp only [Lexer.closeFlow, drops', Option.bind_eq_bind, Option.bind_some]; rfl, ?_⟩
  refine { (behind.pushHere kind inside).allow false with keys := ?_ }
  simp only [behind.inBlock]
  split
  · exact behind.keys
  · exact forall₂_tail behind.keys

lemma comma (abreast : f.Abreast l l') (reads : l.comma = some m) (inside : f.Inside m.cursor) :
    ∃ m', l'.comma = some m' ∧ f.Abreast m m' := by
  obtain ⟨k, drops, result⟩ := Option.bind_eq_some_iff.mp reads
  obtain ⟨k', drops', behind⟩ := abreast.dropKey drops
  obtain rfl : _ = m := by simpa using result
  exact ⟨_, by simp only [Lexer.comma, drops', Option.bind_eq_bind, Option.bind_some]; rfl,
    (behind.pushHere .flowEntry inside).allow true⟩

lemma dash (abreast : f.Abreast l l') (reads : l.dash = some m) (inside : f.Inside m.cursor) :
    ∃ m', l'.dash = some m' ∧ f.Abreast m m' := by
  simp only [Lexer.dash, Option.ite_none_left_eq_some] at reads
  obtain ⟨allowed, reads⟩ := reads
  obtain ⟨k, drops, result⟩ := Option.bind_eq_some_iff.mp reads
  obtain ⟨k', drops', behind⟩ := (abreast.openBlock l.cursor.column .blockSequenceStart
    l.cursor.index l'.cursor.index).dropKey drops
  obtain rfl : _ = m := by simpa using result
  refine ⟨_, ?_, (behind.pushHere .blockEntry inside).allow true⟩
  simp only [Lexer.dash, abreast.inBlock, abreast.keyAllowed, if_neg allowed, abreast.cursor.column,
    drops', Option.bind_eq_bind, Option.bind_some]
  rfl

lemma explicitKey (abreast : f.Abreast l l') (reads : l.explicitKey = some m)
    (inside : f.Inside m.cursor) : ∃ m', l'.explicitKey = some m' ∧ f.Abreast m m' := by
  simp only [Lexer.explicitKey, Option.ite_none_left_eq_some] at reads
  obtain ⟨allowed, reads⟩ := reads
  obtain ⟨k, drops, result⟩ := Option.bind_eq_some_iff.mp reads
  obtain ⟨k', drops', behind⟩ := (abreast.openBlock l.cursor.column .blockMappingStart
    l.cursor.index l'.cursor.index).dropKey drops
  obtain rfl : _ = m := by simpa using result
  refine ⟨{ k'.pushHere .key 1 with keyAllowed := k.inBlock }, ?_,
    (behind.pushHere .key inside).allow k.inBlock⟩
  simp only [Lexer.explicitKey, abreast.inBlock, abreast.keyAllowed, if_neg allowed,
    abreast.cursor.column, drops', Option.bind_eq_bind, Option.bind_some, behind.inBlock]
  rfl

lemma colon (abreast : f.Abreast l l') (reads : l.colon = some m) (inside : f.Inside m.cursor) :
    ∃ m', l'.colon = some m' ∧ f.Abreast m m' := by
  have keys := abreast.keys
  have place := abreast.cursor
  -- without a key before it the `:` opens a mapping where it stands
  have keyless (reads : (if l.inBlock && !l.keyAllowed then none
      else
        let l := l.openBlock l.cursor.column none .blockMappingStart l.cursor.index
        some { l.pushHere .value 1 with keyAllowed := l.inBlock }) = some m) :
      ∃ m', (if l'.inBlock && !l'.keyAllowed then none
        else
          let l' := l'.openBlock l'.cursor.column none .blockMappingStart l'.cursor.index
          some { l'.pushHere .value 1 with keyAllowed := l'.inBlock }) = some m'
        ∧ f.Abreast m m' := by
    simp only [Option.ite_none_left_eq_some, Option.some.injEq, abreast.inBlock, abreast.keyAllowed,
      place.column] at reads ⊢
    obtain ⟨allowed, rfl⟩ := reads
    have block := abreast.openBlock l.cursor.column .blockMappingStart l.cursor.index l'.cursor.index
    exact ⟨_, ⟨allowed, rfl⟩, { block.pushHere .value inside with keyAllowed := block.inBlock }⟩
  unfold Lexer.colon at reads ⊢
  cases first : l.keys with
  | nil =>
    rw [first] at keys
    simp only [first, List.forall₂_nil_left_iff.mp keys] at reads ⊢
    exact keyless reads
  | cons key rest =>
    rw [first] at keys
    obtain ⟨key', rest', twin, twins, eq⟩ := List.forall₂_cons_left_iff.mp keys
    cases twin with
    | none =>
      simp only [first, eq] at reads ⊢
      exact keyless reads
    | @some k k' twin =>
      simp only [first, eq, Option.some.injEq] at reads ⊢
      obtain rfl := reads
      have inserted := abreast.toAlike.insert twin.number .key k.mark.index k'.mark.index
      have block := inserted.openBlock k.mark.column (.some twin.number) .blockMappingStart
        k.mark.index k'.mark.index
      have there : f.Abreast
          ((l.insert k.number .key k.mark.index).openBlock k.mark.column (some k.number)
            .blockMappingStart k.mark.index)
          ((l'.insert k'.number .key k'.mark.index).openBlock k.mark.column (some k'.number)
            .blockMappingStart k'.mark.index) :=
        ⟨block, by simpa only [Lexer.openBlock_cursor, Lexer.insert] using place⟩
      refine ⟨_, rfl, ?_⟩
      rw [twin.column]
      exact { there.pushHere .value inside with keys := .cons .none twins, keyAllowed := rfl }

lemma named (abreast : f.Abreast l l') {kind : String → TokenKind} {x : Char}
    (mark : l.cursor.peek = some x) (other : x ≠ ':') (reads : l.named kind = some m) :
    ∃ m', l'.named kind = some m' ∧ f.Abreast m m' := by
  obtain ⟨k, saves, reads⟩ := Option.bind_eq_some_iff.mp reads
  obtain ⟨⟨name, c⟩, named, result⟩ := Option.bind_eq_some_iff.mp reads
  obtain ⟨k', saves', behind⟩ := abreast.saveKey saves
  obtain rfl : _ = m := by simpa using result
  have next : k.cursor.peek = some x := by rw [Lexer.saveKey_cursor saves, mark]
  obtain ⟨c', named', twin⟩ := anchorName_twin (behind.cursor.advance_one next other) named
  exact ⟨_, by simp only [Lexer.named, saves', named', Option.bind_eq_bind, Option.bind_some]; rfl,
    (behind.pushUpTo (kind name) twin).allow false⟩

lemma tagToken (abreast : f.Abreast l l') (mark : l.cursor.peek = some '!')
    (reads : l.tagToken = some m) (inside : f.Inside m.cursor) :
    ∃ m', l'.tagToken = some m' ∧ f.Abreast m m' := by
  obtain ⟨k, saves, reads⟩ := Option.bind_eq_some_iff.mp reads
  obtain ⟨⟨kind, c⟩, tagged, result⟩ := Option.bind_eq_some_iff.mp reads
  obtain ⟨k', saves', behind⟩ := abreast.saveKey saves
  obtain rfl : _ = m := by simpa using result
  have next : k.cursor.peek = some '!' := by rw [Lexer.saveKey_cursor saves, mark]
  obtain ⟨c', tagged', twin⟩ := tag_twin behind.cursor next tagged inside
  exact ⟨_, by
    simp only [Lexer.tagToken, saves', behind.inBlock, tagged', Option.bind_eq_bind, Option.bind_some]
    rfl, (behind.pushUpTo kind twin).allow false⟩

lemma blockToken (abreast : f.Abreast l l') {literal : Bool} {x : Char}
    (mark : l.cursor.peek = some x) (other : x ≠ ':') (reads : l.blockToken literal = some m)
    (inside : f.Inside m.cursor) : ∃ m', l'.blockToken literal = some m' ∧ f.Abreast m m' := by
  obtain ⟨k, drops, reads⟩ := Option.bind_eq_some_iff.mp reads
  obtain ⟨⟨text, c⟩, scalar, result⟩ := Option.bind_eq_some_iff.mp reads
  obtain ⟨k', drops', behind⟩ := abreast.dropKey drops
  obtain rfl : _ = m := by simpa using result
  have next : k.cursor.peek = some x := by rw [Lexer.dropKey_cursor drops, mark]
  obtain ⟨c', scalar', twin⟩ :=
    blockScalar_twin (behind.cursor.advance_one next other) scalar inside
  exact ⟨_, by
    simp only [Lexer.blockToken, drops', behind.indent, scalar', Option.bind_eq_bind, Option.bind_some]
    rfl, (behind.pushUpTo _ twin).allow true⟩

lemma quotedToken (abreast : f.Abreast l l') {double : Bool} {x : Char}
    (mark : l.cursor.peek = some x) (other : x ≠ ':') (reads : l.quotedToken double = some m)
    (inside : f.Inside m.cursor) : ∃ m', l'.quotedToken double = some m' ∧ f.Abreast m m' := by
  obtain ⟨k, saves, reads⟩ := Option.bind_eq_some_iff.mp reads
  obtain ⟨⟨text, c⟩, scalar, result⟩ := Option.bind_eq_some_iff.mp reads
  obtain ⟨k', saves', behind⟩ := abreast.saveKey saves
  obtain rfl : _ = m := by simpa using result
  have next : k.cursor.peek = some x := by rw [Lexer.saveKey_cursor saves, mark]
  obtain ⟨c', scalar', twin⟩ := quotedFrom_twin (behind.cursor.advance_one next other) scalar inside
    (Nat.lt_succ_of_le (advance_le k'.cursor 1))
  exact ⟨_, by
    simp only [Lexer.quotedToken, saves', scalar', Option.bind_eq_bind, Option.bind_some]
    rfl, (behind.pushUpTo _ twin).allow false⟩

lemma plainToken (abreast : f.Abreast l l') (reads : l.plainToken = some m) :
    ∃ m', l'.plainToken = some m' ∧ f.Abreast m m' := by
  obtain ⟨k, saves, reads⟩ := Option.bind_eq_some_iff.mp reads
  obtain ⟨⟨text, c, broken⟩, scalar, result⟩ := Option.bind_eq_some_iff.mp reads
  obtain ⟨k', saves', behind⟩ := abreast.saveKey saves
  obtain rfl : _ = m := by simpa using result
  obtain ⟨c', scalar', twin⟩ := plainFrom_twin behind.cursor scalar (Nat.lt_succ_self _)
  exact ⟨_, by
    simp only [Lexer.plainToken, saves', behind.inBlock, behind.indent, scalar', Option.bind_eq_bind,
      Option.bind_some]
    rfl, (behind.pushUpTo _ twin).allow broken⟩

end Fork.Abreast

namespace Lexer

/-! ## One token -/

/-- Whether a plain scalar may begin at a character. -/
def beginsPlain (l : Lexer) (x : Char) : Bool :=
  (isSolid x && !isIndicator x) || (x == '-' && !(l.cursor.peekAt 1).any isSpaceOrTab)
    || (l.inBlock && (x == '?' || x == ':') && !isBlankOrEnd (l.cursor.peekAt 1))

/-- The token that begins at a character. -/
def takeAt (l : Lexer) (x : Char) : Option Lexer :=
  let block := l.inBlock
  let blankNext := isBlankOrEnd (l.cursor.peekAt 1)
  if l.cursor.column == 0 && x == '%' then l.directiveLine
  else if atMarker l.cursor then l.marker (if x == '-' then .documentStart else .documentEnd)
  else if x == '[' then l.openFlow .flowSequenceStart
  else if x == '\x7b' then l.openFlow .flowMappingStart
  else if x == ']' then l.closeFlow .flowSequenceEnd
  else if x == '\x7d' then l.closeFlow .flowMappingEnd
  else if x == ',' then l.comma
  else if x == '-' && blankNext then l.dash
  else if x == '?' && (!block || blankNext) then l.explicitKey
  else if x == ':' && (!block || blankNext) then l.colon
  else if x == '*' then l.named .alias
  else if x == '&' then l.named .anchor
  else if x == '!' then l.tagToken
  else if x == '|' && block then l.blockToken true
  else if x == '>' && block then l.blockToken false
  else if x == '\'' then l.quotedToken false
  else if x == '"' then l.quotedToken true
  else if l.beginsPlain x then l.plainToken
  else none

/-- The token at the cursor. -/
def takeToken (l : Lexer) : Option Lexer :=
  match l.cursor.peek with
  | none => l.streamEnd
  | some x => l.takeAt x

/-- A reader at its next token, with the blocks closed that end there. -/
def atToken (l : Lexer) : Option Lexer :=
  (toToken (l.cursor.rest.length + 1) l).dropStale.map fun l => l.closeBlocks l.cursor.column

/-- A token is fetched in two steps: the way to it, and the token itself. -/
lemma fetch_eq (l : Lexer) : l.fetch = l.atToken.bind takeToken := by
  unfold fetch atToken
  cases fresh : (toToken (l.cursor.rest.length + 1) l).dropStale with
  | none => rfl
  | some k =>
    simp only [Option.bind_eq_bind, Option.bind_some, Option.map_some, takeToken]
    cases (k.closeBlocks k.cursor.column).cursor.peek <;> rfl

end Lexer

namespace Fork.Abreast

lemma beginsPlain (abreast : f.Abreast l l') {x : Char} (next : l.cursor.peek = some x) :
    l'.beginsPlain x = l.beginsPlain x := by
  have dash : (x == '-' && !(l'.cursor.peekAt 1).any isSpaceOrTab)
      = (x == '-' && !(l.cursor.peekAt 1).any isSpaceOrTab) := by
    by_cases is : x = '-'
    · have same := (abreast.cursor.advance_one next (by simp [is])).peek
      simp only [Cursor.peek, Cursor.advance, List.head?_drop] at same
      simp only [Cursor.peekAt, same]
    · rw [beq_eq_false_iff_ne.mpr is, Bool.false_and, Bool.false_and]
  simp only [Lexer.beginsPlain, dash, abreast.inBlock, abreast.cursor.blankNext]

/-- What the one reader takes within the stretch, the other one takes as well. -/
def Follows (f : Fork) (taken taken' : Option Lexer) : Prop :=
  ∀ m, taken = some m → f.Inside m.cursor → ∃ m', taken' = some m' ∧ f.Abreast m m'

lemma Follows.ite {p : Prop} [Decidable p] {a a' b b' : Option Lexer} (yes : p → Follows f a a')
    (no : Follows f b b') : Follows f (if p then a else b) (if p then a' else b') := by
  split
  case isTrue holds => exact yes holds
  case isFalse => exact no

lemma takeAt (abreast : f.Abreast l l') {x : Char} (next : l.cursor.peek = some x) :
    Follows f (l.takeAt x) (l'.takeAt x) := by
  have is {y : Char} (same : (x == y) = true) : l.cursor.peek = some y := by
    rw [next, eq_of_beq same]
  have other {y : Char} (same : (x == y) = true) (ne : (y == ':') = false) : x ≠ ':' := by
    rintro rfl
    rw [eq_of_beq same] at ne
    simp at ne
  have mark {y : Char} {b : Bool} (both : (x == y && b) = true) : (x == y) = true := by
    simp_all
  simp only [Lexer.takeAt, abreast.cursor.column, atMarker_twin abreast.cursor, abreast.inBlock,
    abreast.cursor.blankNext, abreast.beginsPlain next]
  refine .ite (fun h m => abreast.directiveLine (by simp_all)) ?_
  refine .ite (fun _ m => abreast.marker) ?_
  refine .ite (fun _ m => abreast.openFlow) ?_
  refine .ite (fun _ m => abreast.openFlow) ?_
  refine .ite (fun _ m => abreast.closeFlow) ?_
  refine .ite (fun _ m => abreast.closeFlow) ?_
  refine .ite (fun _ m => abreast.comma) ?_
  refine .ite (fun _ m => abreast.dash) ?_
  refine .ite (fun _ m => abreast.explicitKey) ?_
  refine .ite (fun _ m => abreast.colon) ?_
  refine .ite (fun h m reads _ => abreast.named next (other h rfl) reads) ?_
  refine .ite (fun h m reads _ => abreast.named next (other h rfl) reads) ?_
  refine .ite (fun h m => abreast.tagToken (is h)) ?_
  refine .ite (fun h m => abreast.blockToken next (other (mark h) rfl)) ?_
  refine .ite (fun h m => abreast.blockToken next (other (mark h) rfl)) ?_
  refine .ite (fun h m => abreast.quotedToken next (other h rfl)) ?_
  refine .ite (fun h m => abreast.quotedToken next (other h rfl)) ?_
  exact .ite (fun _ m reads _ => abreast.plainToken reads) nofun

lemma takeToken (abreast : f.Abreast l l') : Follows f l.takeToken l'.takeToken := by
  intro m reads inside
  unfold Lexer.takeToken at reads ⊢
  rw [abreast.cursor.peek]
  cases next : l.cursor.peek with
  | none =>
    simp only [next] at reads
    exact abreast.streamEnd reads
  | some x =>
    simp only [next] at reads
    exact abreast.takeAt next m reads inside

lemma atToken (abreast : f.Abreast l l') (reads : l.atToken = some m) (inside : f.Inside m.cursor) :
    ∃ m', l'.atToken = some m' ∧ f.Abreast m m' := by
  obtain ⟨k, fresh, rfl⟩ := Option.map_eq_some_iff.mp reads
  rw [Lexer.closeBlocks_cursor, Lexer.dropStale_cursor fresh] at inside
  have there := abreast.toToken (Nat.lt_succ_self _) (Nat.lt_succ_self _) inside
  obtain ⟨k', fresh', behind⟩ := there.dropStale fresh
  refine ⟨_, Option.map_eq_some_iff.mpr ⟨k', fresh', rfl⟩, ?_⟩
  rw [behind.cursor.column]
  exact behind.closeBlocks _

end Fork.Abreast

end ChartLift.Yaml.Content
