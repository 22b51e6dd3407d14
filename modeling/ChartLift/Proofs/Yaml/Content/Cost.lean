import ChartLift.Proofs.Yaml.Content.Fetch

/-!
# What a token costs

Every token but the last one takes a character, and along with it go at most five more tokens and
open blocks. So the steps of a reader are bounded by what is ahead of it.
-/

namespace ChartLift.Yaml.Content

variable {l k m : Lexer}

/-- The tokens that are waiting, and twice the open blocks. -/
def Lexer.load (l : Lexer) : Nat := l.queue.length + 2 * l.outer.length

/-- A bound on the steps that are left. -/
def Lexer.potential (l : Lexer) : Nat :=
  6 * l.cursor.rest.length + l.load + if l.finished then 0 else 2

/-- One reader goes on to another, without going back, and takes on at most `n` more. -/
structure Costs (n : Nat) (l m : Lexer) : Prop where
  rest : m.cursor.rest.length ≤ l.cursor.rest.length
  finished : m.finished = l.finished
  load : m.load ≤ l.load + n

namespace Costs

lemma trans {a b : Nat} (first : Costs a l k) (second : Costs b k m) : Costs (a + b) l m where
  rest := Nat.le_trans second.rest first.rest
  finished := second.finished.trans first.finished
  load := by have := first.load; have := second.load; omega

lemma refl (l : Lexer) : Costs 0 l l := ⟨Nat.le_refl _, rfl, Nat.le_refl _⟩

lemma mono {a b : Nat} (costs : Costs a l m) (le : a ≤ b) : Costs b l m :=
  { costs with load := Nat.le_trans costs.load (Nat.add_le_add_left le _) }

lemma dropStale (drops : l.dropStale = some m) : Costs 0 l m := by
  simp only [Lexer.dropStale, Option.ite_none_left_eq_some, Option.some.injEq] at drops
  obtain ⟨-, rfl⟩ := drops
  exact { refl l with }

lemma dropKey (drops : l.dropKey = some m) : Costs 0 l m := by
  unfold Lexer.dropKey at drops
  repeat' split at drops
  · simp at drops
  · obtain rfl : _ = m := by simpa using drops
    exact { refl l with }
  · obtain rfl : l = m := by simpa using drops
    exact refl l

lemma saveKey (saves : l.saveKey = some m) : Costs 0 l m := by
  unfold Lexer.saveKey at saves
  split at saves
  · obtain ⟨k, drops, result⟩ := Option.bind_eq_some_iff.mp saves
    obtain rfl : _ = m := by simpa using result
    exact { dropKey drops with }
  · obtain rfl : l = m := by simpa using saves
    exact refl l

lemma push (kind : TokenKind) (place : Nat) : Costs 1 l (l.push kind place) where
  rest := Nat.le_refl _
  finished := rfl
  load := by simp [Lexer.load, Lexer.push]; omega

lemma pushUpTo (kind : TokenKind) {c : Cursor} (le : c.rest.length ≤ l.cursor.rest.length) :
    Costs 1 l (l.pushUpTo kind c) where
  rest := le
  finished := rfl
  load := by simp [Lexer.load, Lexer.pushUpTo, Lexer.push]; omega

lemma pushHere (kind : TokenKind) (count : Nat) : Costs 1 l (l.pushHere kind count) :=
  pushUpTo kind (advance_le l.cursor count)

lemma insert (number : Nat) (kind : TokenKind) (place : Nat) :
    Costs 1 l (l.insert number kind place) where
  rest := Nat.le_refl _
  finished := rfl
  load := by simp [Lexer.load, Lexer.insert]; omega

lemma openBlock (column : Nat) (number : Option Nat) (kind : TokenKind) (place : Nat) :
    Costs 3 l (l.openBlock column number kind place) := by
  unfold Lexer.openBlock
  split
  · have inner : Costs 2 l { l with outer := l.indent :: l.outer, indent := column } :=
      ⟨Nat.le_refl _, rfl, by simp only [Lexer.load, List.length_cons]; omega⟩
    cases number with
    | some number => exact inner.trans (insert number kind place)
    | none => exact inner.trans (push kind place)
  · exact (refl l).mono (by decide)

lemma closeBlocksOver (column : Int) (l : Lexer) {outer : List Int} (eq : l.outer = outer) :
    Costs 0 l (Lexer.closeBlocksOver column l outer) := by
  induction outer generalizing l with
  | nil => exact refl l
  | cons indent outer ih =>
    simp only [Lexer.closeBlocksOver]
    split
    · have pop : Costs 0 l { l.push .blockEnd l.cursor.index with indent := indent, outer := outer } :=
        ⟨Nat.le_refl _, rfl, by simp [Lexer.load, Lexer.push, eq]; omega⟩
      exact pop.trans (ih _ rfl)
    · exact refl l

lemma closeBlocks (l : Lexer) (column : Int) : Costs 0 l (l.closeBlocks column) := by
  unfold Lexer.closeBlocks
  split
  · exact closeBlocksOver column l rfl
  · exact refl l

lemma toToken (fuel : Nat) (l : Lexer) : Costs 0 l (Content.toToken fuel l) := by
  refine ⟨toToken_le fuel l, ?_, ?_⟩
  · induction fuel generalizing l with
    | zero => rfl
    | succ fuel ih =>
      rw [toToken_succ]
      split
      · exact ih _
      · rfl
  · induction fuel generalizing l with
    | zero => exact Nat.le_refl _
    | succ fuel ih =>
      rw [toToken_succ]
      split
      · exact ih _
      · exact Nat.le_refl _

lemma atToken (reads : l.atToken = some m) : Costs 0 l m := by
  obtain ⟨k, fresh, rfl⟩ := Option.map_eq_some_iff.mp reads
  exact ((toToken _ l).trans (dropStale fresh)).trans (closeBlocks k _)

end Costs

/-! ## Tokens that take a character -/

/-- A token that goes on by a character at least. -/
def Takes (l m : Lexer) : Prop := Costs 5 l m ∧ m.cursor.rest.length < l.cursor.rest.length

lemma Takes.of_push {kind : TokenKind} {c : Cursor} {n : Nat} (before : Costs n l k) (few : n ≤ 4)
    (same : k.cursor = l.cursor) (shorter : c.rest.length < l.cursor.rest.length)
    (keys : List (Option PendingKey)) (allowed : Bool) :
    Takes l { k.pushUpTo kind c with keys := keys, keyAllowed := allowed } := by
  have le : c.rest.length ≤ k.cursor.rest.length := by rw [same]; omega
  have costs := (before.trans (Costs.pushUpTo kind le)).mono (b := 5) (by omega)
  exact ⟨{ costs with }, shorter⟩

namespace Lexer

variable {x : Char} {kind : TokenKind}

lemma directiveLine_takes (next : l.cursor.peek = some x) (reads : l.directiveLine = some m) :
    Takes l m := by
  obtain ⟨k, drops, reads⟩ := Option.bind_eq_some_iff.mp reads
  obtain ⟨⟨kind, c⟩, line, result⟩ := Option.bind_eq_some_iff.mp reads
  obtain rfl : _ = m := by simpa using result
  have same : k.cursor = l.cursor := by rw [dropKey_cursor drops, closeBlocks_cursor]
  have le := directive_le line
  rw [same] at le
  exact .of_push ((Costs.closeBlocks l (-1)).trans (Costs.dropKey drops)) (by decide) same
    (Nat.lt_of_le_of_lt le (advance_lt next)) _ _

lemma advance_lt_of_pos (next : l.cursor.peek = some x) {count : Nat} (positive : 0 < count) :
    (l.cursor.advance count).rest.length < l.cursor.rest.length := by
  have := advance_lt next
  simp only [Cursor.advance, List.length_drop] at this ⊢
  omega

lemma marker_takes (next : l.cursor.peek = some x) (reads : l.marker kind = some m) : Takes l m := by
  obtain ⟨k, drops, result⟩ := Option.bind_eq_some_iff.mp reads
  obtain rfl : _ = m := by simpa using result
  have same : k.cursor = l.cursor := by rw [dropKey_cursor drops, closeBlocks_cursor]
  exact .of_push ((Costs.closeBlocks l (-1)).trans (Costs.dropKey drops)) (by decide) same
    (by rw [same]; exact advance_lt_of_pos next (by decide)) _ _

lemma openFlow_takes (next : l.cursor.peek = some x) (reads : l.openFlow kind = some m) :
    Takes l m := by
  obtain ⟨k, saves, result⟩ := Option.bind_eq_some_iff.mp reads
  obtain rfl : _ = m := by simpa using result
  have same := saveKey_cursor saves
  exact .of_push (Costs.saveKey saves) (by decide) same
    (by rw [same]; exact advance_lt next) _ _

lemma closeFlow_takes (next : l.cursor.peek = some x) (reads : l.closeFlow kind = some m) :
    Takes l m := by
  obtain ⟨k, drops, result⟩ := Option.bind_eq_some_iff.mp reads
  obtain rfl : _ = m := by simpa using result
  have same := dropKey_cursor drops
  exact .of_push (Costs.dropKey drops) (by decide) same (by rw [same]; exact advance_lt next) _ _

lemma comma_takes (next : l.cursor.peek = some x) (reads : l.comma = some m) : Takes l m := by
  obtain ⟨k, drops, result⟩ := Option.bind_eq_some_iff.mp reads
  obtain rfl : _ = m := by simpa using result
  have same := dropKey_cursor drops
  exact .of_push (Costs.dropKey drops) (by decide) same (by rw [same]; exact advance_lt next) _ _

lemma dash_takes (next : l.cursor.peek = some x) (reads : l.dash = some m) : Takes l m := by
  simp only [Lexer.dash, Option.ite_none_left_eq_some] at reads
  obtain ⟨k, drops, result⟩ := Option.bind_eq_some_iff.mp reads.2
  obtain rfl : _ = m := by simpa using result
  have same : k.cursor = l.cursor := by rw [dropKey_cursor drops, openBlock_cursor]
  exact .of_push ((Costs.openBlock _ _ _ _).trans (Costs.dropKey drops)) (by decide) same
    (by rw [same]; exact advance_lt next) _ _

lemma explicitKey_takes (next : l.cursor.peek = some x) (reads : l.explicitKey = some m) :
    Takes l m := by
  simp only [Lexer.explicitKey, Option.ite_none_left_eq_some] at reads
  obtain ⟨k, drops, result⟩ := Option.bind_eq_some_iff.mp reads.2
  obtain rfl : _ = m := by simpa using result
  have same : k.cursor = l.cursor := by rw [dropKey_cursor drops, openBlock_cursor]
  exact .of_push ((Costs.openBlock _ _ _ _).trans (Costs.dropKey drops)) (by decide) same
    (by rw [same]; exact advance_lt next) _ _

lemma colon_takes (next : l.cursor.peek = some x) (reads : l.colon = some m) : Takes l m := by
  unfold Lexer.colon at reads
  split at reads
  · obtain rfl : _ = m := by simpa using reads
    have same := openBlock_cursor
    exact .of_push ((Costs.insert _ _ _).trans (Costs.openBlock _ _ _ _)) (by decide)
      (by rw [openBlock_cursor]; rfl) (by rw [openBlock_cursor]; exact advance_lt next) _ _
  · simp only [Option.ite_none_left_eq_some, Option.some.injEq] at reads
    obtain ⟨-, rfl⟩ := reads
    exact .of_push (Costs.openBlock _ _ _ _) (by decide) (openBlock_cursor _ _ _ _ _)
      (by rw [openBlock_cursor]; exact advance_lt next) _ _

lemma named_takes {kind : String → TokenKind} (next : l.cursor.peek = some x)
    (reads : l.named kind = some m) : Takes l m := by
  obtain ⟨k, saves, reads⟩ := Option.bind_eq_some_iff.mp reads
  obtain ⟨⟨name, c⟩, named, result⟩ := Option.bind_eq_some_iff.mp reads
  obtain rfl : _ = m := by simpa using result
  have same := saveKey_cursor saves
  have le := anchorName_le named
  rw [same] at le
  exact .of_push (Costs.saveKey saves) (by decide) same (Nat.lt_of_le_of_lt le (advance_lt next)) _ _

lemma tagToken_takes (reads : l.tagToken = some m) : Takes l m := by
  obtain ⟨k, saves, reads⟩ := Option.bind_eq_some_iff.mp reads
  obtain ⟨⟨kind, c⟩, tagged, result⟩ := Option.bind_eq_some_iff.mp reads
  obtain rfl : _ = m := by simpa using result
  have same := saveKey_cursor saves
  rw [same] at tagged
  exact .of_push (Costs.saveKey saves) (by decide) same (tag_lt tagged) _ _

lemma blockToken_takes {literal : Bool} (next : l.cursor.peek = some x)
    (reads : l.blockToken literal = some m) : Takes l m := by
  obtain ⟨k, drops, reads⟩ := Option.bind_eq_some_iff.mp reads
  obtain ⟨⟨text, c⟩, scalar, result⟩ := Option.bind_eq_some_iff.mp reads
  obtain rfl : _ = m := by simpa using result
  have same := dropKey_cursor drops
  have le := blockScalar_le scalar
  rw [same] at le
  exact .of_push (Costs.dropKey drops) (by decide) same (Nat.lt_of_le_of_lt le (advance_lt next)) _ _

lemma quotedToken_takes {double : Bool} (next : l.cursor.peek = some x)
    (reads : l.quotedToken double = some m) : Takes l m := by
  obtain ⟨k, saves, reads⟩ := Option.bind_eq_some_iff.mp reads
  obtain ⟨⟨text, c⟩, scalar, result⟩ := Option.bind_eq_some_iff.mp reads
  obtain rfl : _ = m := by simpa using result
  have same := saveKey_cursor saves
  have le := quotedFrom_le scalar
  rw [same] at le
  exact .of_push (Costs.saveKey saves) (by decide) same (Nat.lt_of_le_of_lt le (advance_lt next)) _ _

lemma dropKey_keys (drops : l.dropKey = some m) : m.keys.length = l.keys.length := by
  unfold Lexer.dropKey at drops
  split at drops
  case h_1 eq =>
    split at drops
    · simp at drops
    · obtain rfl : _ = m := by simpa using drops
      simp [eq]
  case h_2 =>
    obtain rfl : l = m := by simpa using drops
    rfl

lemma saveKey_inBlock (saves : l.saveKey = some m) : m.inBlock = l.inBlock := by
  unfold Lexer.saveKey at saves
  split at saves
  · obtain ⟨k, drops, result⟩ := Option.bind_eq_some_iff.mp saves
    obtain rfl : _ = m := by simpa using result
    have := dropKey_keys drops
    simp only [Lexer.inBlock, List.length_cons, List.length_tail]
    exact decide_eq_decide.mpr (by omega)
  · obtain rfl : l = m := by simpa using saves
    rfl

lemma plainToken_takes (next : l.cursor.peek = some x) (marker : atMarker l.cursor = false)
    (dash : (x == '-' && isBlankOrEnd (l.cursor.peekAt 1)) = false) (begins : l.beginsPlain x = true)
    (reads : l.plainToken = some m) : Takes l m := by
  obtain ⟨k, saves, reads⟩ := Option.bind_eq_some_iff.mp reads
  obtain ⟨⟨text, c, broken⟩, scalar, result⟩ := Option.bind_eq_some_iff.mp reads
  obtain rfl : _ = m := by simpa using result
  have same := saveKey_cursor saves
  have inBlock : k.inBlock = l.inBlock := saveKey_inBlock saves
  have fits : x ≠ '#' ∧ isSolid x = true
      ∧ endsPlain (!l.inBlock) x (l.cursor.peekAt 1) = false := by
    simp only [beginsPlain, Bool.or_eq_true, Bool.and_eq_true, Bool.not_eq_true', beq_iff_eq] at begins
    rcases begins with (⟨solid, indicator⟩ | ⟨rfl, -⟩) | ⟨⟨block, rfl | rfl⟩, follows⟩
    · simp only [isIndicator, Bool.or_eq_false_iff, List.contains_eq_mem, decide_eq_false_iff_not,
        List.mem_cons, not_or] at indicator
      obtain ⟨structure_, -, -, colon, comment, -⟩ := indicator
      exact ⟨comment, solid, by simp [endsPlain, structure_, colon]⟩
    · refine ⟨by decide, by decide, ?_⟩
      have : isFlowIndicator '-' = false := by decide
      simp [endsPlain, this]
    · exact ⟨by decide, by decide, by simp [endsPlain, block]⟩
    · exact ⟨by decide, by decide, by simp [endsPlain, block, follows]⟩
  rw [same, inBlock] at scalar
  exact .of_push (Costs.saveKey saves) (by decide) same
    (plainFrom_lt next marker fits.1 fits.2.1 fits.2.2 scalar) _ _

lemma takeAt_takes (next : l.cursor.peek = some x) (reads : l.takeAt x = some m) : Takes l m := by
  have ite {p : Prop} [Decidable p] {a b : Option Lexer} (yes : p → a = some m → Takes l m)
      (no : ¬p → b = some m → Takes l m) (reads : (if p then a else b) = some m) : Takes l m := by
    split at reads
    case isTrue holds => exact yes holds reads
    case isFalse fails => exact no fails reads
  unfold takeAt at reads
  revert reads
  refine ite (fun _ => directiveLine_takes next) fun _ => ?_
  refine ite (fun _ => marker_takes next) fun marker => ?_
  refine ite (fun _ => openFlow_takes next) fun _ => ?_
  refine ite (fun _ => openFlow_takes next) fun _ => ?_
  refine ite (fun _ => closeFlow_takes next) fun _ => ?_
  refine ite (fun _ => closeFlow_takes next) fun _ => ?_
  refine ite (fun _ => comma_takes next) fun _ => ?_
  refine ite (fun _ => dash_takes next) fun dash => ?_
  refine ite (fun _ => explicitKey_takes next) fun _ => ?_
  refine ite (fun _ => colon_takes next) fun _ => ?_
  refine ite (fun _ => named_takes next) fun _ => ?_
  refine ite (fun _ => named_takes next) fun _ => ?_
  refine ite (fun _ => tagToken_takes) fun _ => ?_
  refine ite (fun _ => blockToken_takes next) fun _ => ?_
  refine ite (fun _ => blockToken_takes next) fun _ => ?_
  refine ite (fun _ => quotedToken_takes next) fun _ => ?_
  refine ite (fun _ => quotedToken_takes next) fun _ => ?_
  exact ite (fun begins => plainToken_takes next (by simpa using marker) (by simpa using dash) begins)
    fun _ => nofun

/-! ## Potentials -/

/-- The end of the text costs the blocks that it closes. -/
lemma streamEnd_costs (reads : l.streamEnd = some m) :
    m.finished = true ∧ m.cursor = l.cursor ∧ m.load ≤ l.load + 1 := by
  obtain ⟨k, drops, result⟩ := Option.bind_eq_some_iff.mp reads
  obtain rfl : _ = m := by simpa using result
  have costs := ((Costs.closeBlocks l (-1)).trans (Costs.dropKey drops)).trans
    (Costs.push .streamEnd k.cursor.index)
  exact ⟨rfl, by rw [← closeBlocks_cursor l (-1), ← dropKey_cursor drops]; rfl, costs.load⟩

lemma takeToken_le (reads : l.takeToken = some m) : m.cursor.rest.length ≤ l.cursor.rest.length := by
  unfold takeToken at reads
  split at reads
  · exact Nat.le_of_eq (by rw [(streamEnd_costs reads).2.1])
  case h_2 x next => exact (takeAt_takes next reads).1.rest

lemma fetch_le (reads : l.fetch = some m) : m.cursor.rest.length ≤ l.cursor.rest.length := by
  rw [fetch_eq] at reads
  obtain ⟨k, there, reads⟩ := Option.bind_eq_some_iff.mp reads
  exact Nat.le_trans (takeToken_le reads) (Costs.atToken there).rest

/-- Each token brings a reader that has not finished nearer to the end. -/
lemma fetch_potential (open_ : l.finished = false) (reads : l.fetch = some m) :
    m.potential < l.potential := by
  rw [fetch_eq] at reads
  obtain ⟨k, there, reads⟩ := Option.bind_eq_some_iff.mp reads
  have way := Costs.atToken there
  have rest := way.rest
  have load := way.load
  have finished := way.finished
  unfold takeToken at reads
  simp only [potential, open_] at *
  split at reads
  · obtain ⟨ends, same, few⟩ := streamEnd_costs reads
    simp only [ends, same, if_true]
    simp
    omega
  case h_2 x next =>
    obtain ⟨costs, shorter⟩ := takeAt_takes next reads
    have := costs.load
    rw [costs.finished, finished]
    simp
    omega

end Lexer

namespace Fork.Abreast

variable {f : Fork} {l' : Lexer}

/-- The next token of the one text is that of the other, as long as it stays within the stretch. -/
lemma fetch (abreast : f.Abreast l l') (reads : l.fetch = some m) (inside : f.Inside m.cursor) :
    ∃ m', l'.fetch = some m' ∧ f.Abreast m m' := by
  rw [Lexer.fetch_eq] at reads ⊢
  obtain ⟨k, there, reads⟩ := Option.bind_eq_some_iff.mp reads
  obtain ⟨k', there', behind⟩ := abreast.atToken there (inside.mono (Lexer.takeToken_le reads))
  obtain ⟨m', reads', last⟩ := behind.takeToken m reads inside
  exact ⟨m', by rw [there']; exact reads', last⟩

end Fork.Abreast

end ChartLift.Yaml.Content
