import ChartLift.Yaml.Layout.Scalar
import Mathlib.Tactic.Lemma

/-!
# Plain scalars on one line

What stands in the text where the layout reader reads a plain scalar of a block that is written on
one line (`plainLine_of_plainFrom`): a `:` inside it has something solid behind it, and after it
there are only blanks up to where it stops, which is at the end of the line or of the text, at a
comment, or at a `:` with a blank or nothing behind it.
-/

namespace ChartLift.Yaml.Layout

open Content (Gap)

/-- Each `:` of a text, with another one behind it, has a character behind it that fits. -/
def Closed (fits : Char → Bool) : List Char → List Char → Prop
  | [], _ => True
  | x :: name, after =>
    (x = ':' → ∃ y ∈ (name ++ after).head?, fits y = true) ∧ Closed fits name after

/-- That a plain scalar of a block does not go on along its line: nothing is ahead but a line break,
a comment, or a `:` with a blank or nothing behind it. -/
def Stops (ahead : List Char) : Prop :=
  ∀ x tail, ahead = x :: tail →
    isBreak x = true ∨ x = '#' ∨ x = ':' ∧ isBlankOrEnd tail.head? = true

/-- That a text, with another one behind it, is a plain scalar of a block on one line. -/
structure PlainLine (name after : List Char) : Prop where
  inLine : ∀ x ∈ name, isBreak x = false
  closed : Closed isSolid name after
  ends : ∃ blanks ahead, after = blanks ++ ahead ∧
    (∀ x ∈ blanks, isSpaceOrTab x = true) ∧ Stops ahead

/-! ## Parts -/

lemma isSolid_iff {x : Char} : isSolid x = true ↔ isSpaceOrTab x = false ∧ isBreak x = false := by
  simp [isSolid, inLine]

lemma not_any_of_isSolid {next : Option Char} (solid : ∀ x ∈ next, isSolid x = true) :
    (!next.any fun x => isSpaceOrTab x || isBreak x) = true := by
  cases next with
  | none => rfl
  | some x => simp [isSolid_iff.mp (solid x rfl)]

lemma isBreak_of_isSpaceOrTab {x : Char} (blank : isSpaceOrTab x = true) : isBreak x = false := by
  simp only [isSpaceOrTab, Bool.or_eq_true, beq_iff_eq] at blank
  rcases blank with rfl | rfl <;> rfl

lemma closed_append {fits : Char → Bool} (name more after : List Char) :
    Closed fits (name ++ more) after ↔
      Closed fits name (more ++ after) ∧ Closed fits more after := by
  induction name with
  | nil => simp [Closed]
  | cons x name ih => simp only [List.cons_append, Closed, ih, List.append_assoc, and_assoc]

/-- A text without a `:`. -/
lemma closed_of_forall_ne {fits : Char → Bool} {name : List Char} (after : List Char)
    (none : ∀ x ∈ name, x ≠ ':') : Closed fits name after := by
  induction name with
  | nil => trivial
  | cons x name ih =>
    obtain ⟨here, none⟩ := List.forall_mem_cons.mp none
    exact ⟨fun is => absurd is here, ih none⟩

/-- What a part of a plain scalar takes of a text, and where it ends. -/
lemma plainPart_append (ahead : List Char) :
    ∃ tail, ahead = plainPart false ahead ++ tail ∧
      (∀ x ∈ plainPart false ahead, isSolid x = true) ∧
      Closed isSolid (plainPart false ahead) tail ∧
      ∀ x rest, tail = x :: rest → isSolid x = true → x = ':' ∧ isBlankOrEnd rest.head? = true := by
  induction ahead with
  | nil => exact ⟨[], rfl, List.forall_mem_nil _, trivial, by simp⟩
  | cons x rest ih =>
    obtain ⟨tail, split, solid, closed, stop⟩ := ih
    rw [plainPart]
    split
    next goes =>
      obtain ⟨here, goes⟩ := Bool.and_eq_true_iff.mp goes
      refine ⟨tail, by rw [List.cons_append, ← split], List.forall_mem_cons.mpr ⟨here, solid⟩,
        ⟨?_, closed⟩, stop⟩
      rintro rfl
      rw [← split]
      cases next : rest.head? with
      | none => simp [continuesPlain, isBlankOrEnd, next] at goes
      | some y => exact ⟨y, rfl, by simpa [continuesPlain, isBlankOrEnd, next] using goes⟩
    next stops =>
      refine ⟨x :: rest, rfl, List.forall_mem_nil _, trivial, ?_⟩
      rintro _ _ ⟨⟩ solid
      simpa [continuesPlain, solid] using stops

/-! ## Gaps -/

/-- Where a plain scalar stands behind blanks and breaks of a text that begin at a column: behind
blanks of the line, or behind the end of the line. -/
inductive PlainState.Past (column : Nat) : List Char → PlainState → Prop where
  | inLine {raw c loaded} :
    (∀ x ∈ raw, isSpaceOrTab x = true) →
    c.column = column + raw.length →
    Past column raw ⟨⟨false, raw, [], []⟩, c, loaded, false⟩
  | broken {blanks x behind more c loaded} :
    (∀ x ∈ blanks, isSpaceOrTab x = true) →
    isBreak x = true →
    (∀ y ∈ more, y = '\n') →
    Past column (blanks ++ x :: behind) ⟨⟨true, [], ['\n'], more⟩, c, loaded, true⟩

lemma rest_advance_one {c : Cursor} {x : Char} (peek : c.peek = some x) :
    c.rest = x :: (c.advance 1).rest := by
  obtain ⟨rest, eq⟩ := List.head?_eq_some_iff.mp peek
  simp [Cursor.advance, eq]

lemma rest_passBreak {c : Cursor} {x : Char} (peek : c.peek = some x) (breaks : isBreak x = true) :
    ∃ more, c.rest = x :: more ++ (passBreak c).rest := by
  obtain ⟨rest, eq⟩ := List.head?_eq_some_iff.mp peek
  rw [passBreak]
  split
  next more same =>
    obtain ⟨rfl, -⟩ := List.cons.inj (eq.symm.trans same)
    exact ⟨['\n'], by rw [same]; simp [Cursor.breakLine, same]⟩
  next y more _ same =>
    obtain ⟨rfl, rfl⟩ := List.cons.inj (eq.symm.trans same)
    exact ⟨[], by rw [if_pos breaks, same]; simp [Cursor.breakLine, same]⟩
  next none => simp [none] at eq

lemma suffix_passBlanks {tabs : Bool} {c c' : Cursor} {blanks : Blanks}
    (h : passBlanks tabs c = some (blanks, c')) : c'.rest <:+ c.rest := by
  simp only [passBlanks] at h
  split at h
  · split at h
    · cases h
    · cases h
      exact (List.drop_suffix ..).trans (List.drop_suffix ..)
  · cases h
    exact List.drop_suffix ..

namespace PlainState

variable {column : Nat} {raw : List Char} {s s' : PlainState}

/-- Behind the end of a line more of the text may have been passed. -/
lemma Past.append {gap : Gap} {c c' : Cursor} {loaded loaded' : Nat}
    (past : Past column raw ⟨gap, c, loaded, true⟩) (more : List Char) :
    Past column (raw ++ more) ⟨gap, c', loaded', true⟩ := by
  cases past with
  | broken blank breaks feeds =>
    rw [List.append_assoc]
    exact .broken blank breaks feeds

lemma Past.column_le (past : s.Past column raw) (unbroken : s.gap.broken = false) :
    column ≤ s.cursor.column := by
  cases past with
  | inLine _ place => exact Nat.le.intro place.symm
  | broken => cases unbroken

/-- What is passed in a gap. -/
lemma past_of_plainGap {indent : Int} {fuel : Nat} (h : plainGap indent fuel s = some s')
    (past : s.Past column raw) :
    ∃ more, s.cursor.rest = more ++ s'.cursor.rest ∧ s'.Past column (raw ++ more) := by
  fun_induction plainGap indent fuel s generalizing raw with
  | case1 => cases h
  | case2 | case7 =>
    cases h
    exact ⟨[], rfl, by rwa [List.append_nil]⟩
  | case3 fuel s c x peek blank ahead =>
    rename_i ih
    cases past with
    | broken => simp at ahead
    | inLine blanks place =>
      have further : (c.advance 1).column = column + (raw ++ [x]).length := by
        rw [List.length_append, List.length_singleton, ← Nat.add_assoc, ← place]
        rfl
      obtain ⟨more, split, past⟩ := ih h
        (.inLine (List.forall_mem_append.mpr ⟨blanks, List.forall_mem_singleton.mpr blank⟩) further)
      exact ⟨x :: more, by rw [List.cons_append, ← split]; exact rest_advance_one peek,
        by rwa [List.append_cons]⟩
  | case4 fuel s c x peek blank leading tab =>
    rename_i ih
    obtain ⟨⟨blanks, c'⟩, passed, h⟩ := Option.bind_eq_some_iff.mp h
    obtain ⟨front, rest⟩ := suffix_passBlanks passed
    have on : s.leading = true := by simpa using leading
    obtain ⟨gap, c, loaded, _⟩ := s
    cases on
    obtain ⟨-, h⟩ := Option.ite_none_right_eq_some.mp h
    obtain ⟨more, split, past⟩ := ih c' h (past.append front)
    exact ⟨front ++ more, by rw [List.append_assoc, ← split, rest], by rwa [← List.append_assoc]⟩
  | case5 fuel s c x peek blank leading tab =>
    rename_i ih
    have on : s.leading = true := by simpa using leading
    obtain ⟨gap, c, loaded, _⟩ := s
    cases on
    obtain ⟨more, split, past⟩ := ih h (past.append [x])
    exact ⟨x :: more, by rw [List.cons_append, ← split]; exact rest_advance_one peek,
      by rwa [List.append_cons]⟩
  | case6 fuel s c x peek blank breaks gap =>
    rename_i ih
    obtain ⟨front, rest⟩ := rest_passBreak peek breaks
    suffices Past column (raw ++ x :: front) ⟨gap, passBreak c, s.loaded, true⟩ by
      obtain ⟨more, split, past⟩ := ih h this
      exact ⟨x :: front ++ more, by rw [List.append_assoc, ← split]; exact rest,
        by rwa [← List.append_assoc]⟩
    cases past with
    | inLine blanks => exact .broken blanks breaks (List.forall_mem_nil _)
    | broken blanks first feeds =>
      rw [List.append_assoc]
      exact .broken blanks first
        (List.forall_mem_append.mpr ⟨feeds, List.forall_mem_singleton.mpr rfl⟩)

/-- A gap ends where something solid is ahead, or nothing. -/
lemma isSolid_of_plainGap {indent : Int} {fuel : Nat} (h : plainGap indent fuel s = some s') :
    ∀ x ∈ s'.cursor.peek, isSolid x = true := by
  fun_induction plainGap indent fuel s with
  | case1 => cases h
  | case2 fuel s c none =>
    cases h
    intro x peek
    cases none.symm.trans peek
  | case3 => rename_i ih; exact ih h
  | case4 =>
    rename_i ih
    obtain ⟨_, _, h⟩ := Option.bind_eq_some_iff.mp h
    exact ih _ (Option.ite_none_right_eq_some.mp h).2
  | case5 => rename_i ih; exact ih h
  | case6 => rename_i ih; exact ih h
  | case7 fuel s c x peek blank breaks =>
    cases h
    intro y here
    obtain rfl := Option.some.inj (peek.symm.trans here)
    exact isSolid_iff.mpr ⟨Bool.eq_false_iff.mpr blank, Bool.eq_false_iff.mpr breaks⟩

/-- The gap behind the end of a line stands for a space, unless it holds more breaks. -/
lemma text_of_broken (more : List Char) (feeds : ∀ y ∈ more, y = '\n') :
    Gap.text ⟨true, [], ['\n'], more⟩ = [' '] ∨
      ∃ rest, Gap.text ⟨true, [], ['\n'], more⟩ = '\n' :: rest := by
  cases more with
  | nil => exact .inl rfl
  | cons y more =>
    obtain rfl := feeds y List.mem_cons_self
    exact .inr ⟨more, rfl⟩

end PlainState

/-! ## Lines -/

section

variable {name after : List Char} {column : Nat} {raw : List Char} {s s' : PlainState}

/-- A plain scalar that has ended already. -/
lemma PlainState.Past.plainLine_nil (past : s.Past column raw)
    (stops : s.gap.broken = false → Stops s.cursor.rest) : PlainLine [] (raw ++ s.cursor.rest) where
  inLine := List.forall_mem_nil _
  closed := trivial
  ends := by
    cases past with
    | inLine blanks => exact ⟨raw, _, rfl, blanks, stops rfl⟩
    | @broken blanks x behind _ _ _ blank breaks =>
      refine ⟨blanks, x :: behind ++ _, List.append_assoc .., blank, ?_⟩
      rintro _ _ ⟨⟩
      exact .inl breaks

/-- Blanks and a part in front of a plain scalar. -/
lemma PlainLine.append {part later tail : List Char} (blank : ∀ x ∈ raw, isSpaceOrTab x = true)
    (solid : ∀ x ∈ part, isBreak x = false) (closed : Closed isSolid part tail)
    (line : PlainLine later after) (split : tail = later ++ after) :
    PlainLine (raw ++ part ++ later) after where
  inLine := List.forall_mem_append.mpr ⟨List.forall_mem_append.mpr
    ⟨fun x mem => isBreak_of_isSpaceOrTab (blank x mem), solid⟩, line.inLine⟩
  closed := by
    have clear : ∀ x ∈ raw, x ≠ ':' := by
      rintro x mem rfl
      cases blank _ mem
    rw [closed_append, closed_append, ← split]
    exact ⟨⟨closed_of_forall_ne _ clear, closed⟩, line.closed⟩
  ends := line.ends

/-- Where the text is written on one line, the gap in front of a part is made of blanks. -/
lemma PlainState.Past.blank (past : s.Past column raw) {x : Char} {behind more : List Char}
    (solid : isSolid x = true) (split : raw ++ x :: behind = s.gap.text ++ x :: more)
    (oneLine : ∀ y ∈ s.gap.text, isBreak y = false) :
    s.gap.text = raw ∧ s.cursor.column = column + raw.length ∧
      ∀ y ∈ raw, isSpaceOrTab y = true := by
  obtain ⟨apart, inside⟩ := isSolid_iff.mp solid
  cases past with
  | inLine blanks place => exact ⟨rfl, place, blanks⟩
  | @broken blanks b behind' more' _ _ blank breaks feeds =>
    exfalso
    rcases text_of_broken more' feeds with space | ⟨rest, feed⟩
    · rw [show Gap.text _ = _ from space] at split
      cases blanks with
      | nil =>
        cases (List.cons.inj split).1
        cases breaks
      | cons y blanks =>
        have next := (List.cons.inj split).2
        cases blanks with
        | nil =>
          obtain rfl := (List.cons.inj next).1
          exact Bool.noConfusion (breaks.symm.trans inside)
        | cons z blanks =>
          obtain rfl := (List.cons.inj next).1
          exact Bool.noConfusion ((blank z (by simp)).symm.trans apart)
    · have := oneLine '\n' (by rw [show Gap.text _ = _ from feed]; exact List.mem_cons_self)
      cases this

/-- How a plain scalar of a block goes on behind a part of it: not at all, or out of its block, or
with what is read behind a gap. -/
inductive GoesOn (indent : Int) (fuel : Nat) (c : Cursor) : List Char → Prop where
  | ended :
    Stops c.rest →
    GoesOn indent fuel c []
  | outside {loaded n t} :
    plainGap indent n ⟨.none, c, loaded, false⟩ = some t →
    t.cursor.column < indent →
    GoesOn indent fuel c []
  | further {loaded n t later s'} :
    plainGap indent n ⟨.none, c, loaded, false⟩ = some t →
    plainFrom false indent fuel t = some (later, s') →
    GoesOn indent fuel c later

/-- What is read as a plain scalar of a block: nothing, or a part and what it goes on with. -/
lemma plainFrom_cases {indent : Int} {fuel : Nat}
    (reads : plainFrom false indent (fuel + 1) s = some (name, s'))
    (solid : ∀ x ∈ s.cursor.peek, isSolid x = true) :
    (name = [] ∧ (s.leading = true ∨ Stops s.cursor.rest)) ∨
      ∃ x part later, name = s.gap.text ++ x :: part ++ later ∧
        (∀ y ∈ x :: part, isSolid y = true) ∧
        let c := s.cursor.advance (x :: part).length
        s.cursor.rest = x :: part ++ c.rest ∧ Closed isSolid (x :: part) c.rest ∧
        GoesOn indent fuel c later := by
  rw [plainFrom] at reads
  simp only [Bool.false_and, Bool.false_eq_true, if_false, Bool.not_false, Bool.true_and] at reads
  split at reads
  next ends =>
    obtain ⟨rfl, -⟩ := Prod.mk.inj (Option.some.inj reads)
    rcases Bool.or_eq_true_iff.mp ends with marker | comment
    · exact .inl ⟨rfl, .inl (Bool.and_eq_true_iff.mp marker).1⟩
    · refine .inl ⟨rfl, .inr fun x rest eq => .inr (.inl ?_)⟩
      simpa [Cursor.sees, Cursor.peek, eq] using comment
  next goes =>
    obtain ⟨tail, cut, firm, closed, stop⟩ := plainPart_append s.cursor.rest
    generalize plainPart false s.cursor.rest = part at *
    cases part with
    | nil =>
      rw [List.isEmpty_nil, if_pos rfl, if_pos rfl, if_pos (not_any_of_isSolid solid)] at reads
      obtain ⟨rfl, -⟩ := Prod.mk.inj (Option.some.inj reads)
      refine .inl ⟨rfl, .inr fun x rest eq => .inr (.inr (stop x rest (cut.symm.trans eq) ?_))⟩
      exact solid x (by simp [Cursor.peek, eq])
    | cons x part =>
      have left : (s.cursor.advance (x :: part).length).rest = tail := by
        rw [Cursor.advance, cut]
        exact List.drop_left
      rw [List.isEmpty_cons, if_neg Bool.false_ne_true, if_neg Bool.false_ne_true] at reads
      right
      split at reads
      next still =>
        obtain ⟨rfl, -⟩ := Prod.mk.inj (Option.some.inj reads)
        refine ⟨x, part, [], (List.append_nil _).symm, firm, left ▸ cut, left ▸ closed,
          .ended fun y rest eq => .inr (.inr (stop y rest (left.symm.trans eq) ?_))⟩
        rw [Cursor.peek, eq] at still
        simpa [isSolid_iff] using still
      next =>
        obtain ⟨t, gap, reads⟩ := Option.bind_eq_some_iff.mp reads
        split at reads
        next outside =>
          obtain ⟨rfl, -⟩ := Prod.mk.inj (Option.some.inj reads)
          exact ⟨x, part, [], (List.append_nil _).symm, firm, left ▸ cut, left ▸ closed,
            .outside gap (of_decide_eq_true outside)⟩
        next =>
          obtain ⟨⟨later, _⟩, reads', same⟩ := Option.bind_eq_some_iff.mp reads
          obtain ⟨rfl, -⟩ := Prod.mk.inj (Option.some.inj same)
          exact ⟨x, part, later, rfl, firm, left ▸ cut, left ▸ closed, .further gap reads'⟩

/-- What a plain scalar goes on with stands in the text as one, if it is written on one line. -/
lemma GoesOn.plainLine {indent : Int} {fuel : Nat} {c : Cursor} (goes : GoesOn indent fuel c name)
    (within : indent ≤ c.column) (split : c.rest = name ++ after)
    (oneLine : ∀ x ∈ name, isBreak x = false) : PlainLine name after := by
  induction fuel using Nat.strongRecOn generalizing c name with
  | _ fuel ih =>
    have start {loaded : Nat} : PlainState.Past c.column [] ⟨.none, c, loaded, false⟩ :=
      .inLine (List.forall_mem_nil _) rfl
    cases goes with
    | ended stops =>
      rw [← List.nil_append after, ← split]
      exact ⟨List.forall_mem_nil _, trivial, [], c.rest, rfl, List.forall_mem_nil _, stops⟩
    | outside gap outside =>
      obtain ⟨more, passed, past⟩ := PlainState.past_of_plainGap gap start
      rw [← List.nil_append after, ← split]
      refine passed ▸ past.plainLine_nil fun unbroken => ?_
      -- blanks of the line do not lead out of the block
      have := past.column_le unbroken
      omega
    | @further _ _ t _ _ gap reads =>
      obtain ⟨more, passed, past⟩ := PlainState.past_of_plainGap gap start
      cases fuel with
      | zero => cases reads
      | succ fuel =>
        rcases plainFrom_cases reads (PlainState.isSolid_of_plainGap gap) with
          ⟨rfl, stops⟩ | ⟨x, part, later, rfl, solid, ahead, closed, goes⟩
        · rw [← List.nil_append after, ← split]
          refine passed ▸ past.plainLine_nil fun unbroken => stops.resolve_left fun leading => ?_
          cases past with
          | inLine => cases leading
          | broken => cases unbroken
        · have whole : more ++ x :: (part ++ (t.cursor.advance (x :: part).length).rest) =
              t.gap.text ++ x :: (part ++ later ++ after) := by
            rw [← List.cons_append, ← ahead, ← passed, split]
            simp
          obtain ⟨same, place, blank⟩ := past.blank (solid x List.mem_cons_self) whole
            fun y mem => oneLine y (by simp [mem])
          have left : (t.cursor.advance (x :: part).length).rest = later ++ after := by
            simpa [same] using whole
          have inner : indent ≤ (t.cursor.advance (x :: part).length).column := by
            simp only [Cursor.advance, place]
            omega
          rw [same]
          exact .append blank (fun y mem => (isSolid_iff.mp (solid y mem)).2) closed
            (ih fuel (Nat.lt_succ_self _) goes inner left fun y mem =>
              oneLine y (List.mem_append_right _ mem)) left

/-- What is read as a plain scalar of a block stands in the text as one, if it is written on one
line. -/
lemma plainLine_of_plainFrom {indent : Int} {fuel : Nat} {x : Char}
    (reads : plainFrom false indent fuel s = some (x :: name, s')) (fresh : s.gap = .none)
    (within : indent ≤ s.cursor.column + 1) (split : s.cursor.rest = x :: name ++ after)
    (solid : isSolid x = true) (oneLine : ∀ y ∈ x :: name, isBreak y = false) :
    PlainLine (x :: name) after := by
  have first : ∀ y ∈ s.cursor.peek, isSolid y = true := by
    intro y peek
    rw [Cursor.peek, split] at peek
    exact Option.some.inj peek ▸ solid
  cases fuel with
  | zero => cases reads
  | succ fuel =>
    rcases plainFrom_cases reads first with
      ⟨⟨⟩, -⟩ | ⟨y, part, later, eq, firm, ahead, closed, goes⟩
    have whole : x :: name = [] ++ y :: part ++ later := by
      rw [eq, fresh]
      rfl
    have left : (s.cursor.advance (y :: part).length).rest = later ++ after := by
      rw [split, whole] at ahead
      simpa using ahead.symm
    have inner : indent ≤ (s.cursor.advance (y :: part).length).column := by
      simp only [Cursor.advance, List.length_cons]
      omega
    rw [whole] at oneLine ⊢
    exact .append (List.forall_mem_nil _) (fun z mem => (isSolid_iff.mp (firm z mem)).2) closed
      (goes.plainLine inner left fun z mem => oneLine z (List.mem_append_right _ mem)) left

end

end ChartLift.Yaml.Layout
