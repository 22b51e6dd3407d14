import ChartLift.Proofs.Yaml.Content.Twin
import Mathlib.Tactic.SplitIfs

/-!
# Scalars of texts that go on alike

The scanners of plain, quoted and block scalars do not go back, and what they read within a stretch
that two texts share is the same in both.
-/

namespace ChartLift.Yaml.Content

open Fork

variable {f : Fork} {c c' d : Cursor}

/-! ## Plain scalars -/

lemma takeGap_le {indent : Int} {fuel : Nat} {gap gap' : Gap}
    (reads : takeGap indent fuel gap c = some (gap', d)) : d.rest.length ≤ c.rest.length := by
  induction fuel generalizing c gap with
  | zero => simp [takeGap] at reads
  | succ fuel ih =>
    have one := advance_le c 1
    have line := takeBreak_le c
    simp only [takeGap] at reads
    split at reads
    · simp_all
    · repeat' split at reads
      all_goals first
        | exact Nat.le_trans (ih reads) one
        | exact Nat.le_trans (ih reads) line
        | simp_all

/-- A gap ends before the `:` at the end of the stretch. -/
lemma takeGap_twin {indent : Int} {fuel : Nat} {gap gap' : Gap} (twin : f.Twin c c')
    (reads : takeGap indent fuel gap c = some (gap', d)) {fuel' : Nat}
    (enough : c'.rest.length < fuel') :
    ∃ d', takeGap indent fuel' gap c' = some (gap', d') ∧ f.Twin d d' := by
  induction fuel generalizing c c' gap fuel' with
  | zero => simp [takeGap] at reads
  | succ fuel ih =>
    obtain ⟨fuel', rfl⟩ : ∃ n, fuel' = n + 1 := ⟨fuel' - 1, by omega⟩
    rw [takeGap] at reads ⊢
    rw [twin.peek]
    cases next : c.peek with
    | none =>
      simp only [next, Option.some.injEq, Prod.mk.injEq] at reads
      obtain ⟨rfl, rfl⟩ := reads
      exact ⟨c', rfl, twin⟩
    | some x =>
      simp only [next, twin.column] at reads ⊢
      -- a blank or a break is passed in both texts, anything else ends both gaps
      by_cases blank : isSpaceOrTab x = true
      · have on : f.Twin (c.advance 1) (c'.advance 1) :=
          twin.advance_one next (by rintro rfl; simp [isSpaceOrTab] at blank)
        have := advance_lt (twin.peek.trans next)
        simp only [if_pos blank] at reads ⊢
        split at reads
        case isTrue broken =>
          split at reads
          · simp at reads
          case isFalse indented =>
            simpa only [if_pos broken, if_neg indented] using ih on reads (by omega)
        case isFalse whole =>
          simpa only [if_neg whole] using ih on reads (by omega)
      · simp only [if_neg blank] at reads ⊢
        by_cases breaks : isBreak x = true
        · obtain ⟨text, on⟩ := takeBreak_twin twin (inside_takeBreak twin next breaks)
          have := takeBreak_lt (twin.peek.trans next) breaks
          simp only [if_pos breaks, text] at reads ⊢
          split at reads
          case isTrue broken => simpa only [if_pos broken] using ih on reads (by omega)
          case isFalse whole => simpa only [if_neg whole] using ih on reads (by omega)
        · simp only [if_neg breaks, Option.some.injEq, Prod.mk.injEq] at reads ⊢
          obtain ⟨rfl, rfl⟩ := reads
          exact ⟨c', ⟨rfl, rfl⟩, twin⟩

/-- Behind the `:` at the end of the stretch a plain scalar ends. -/
lemma plainPart_colon {flow : Bool} {far : List Char} (blank : isBlankOrEnd far.head? = true) :
    plainPart flow (':' :: far) = some [] := by
  have stray : strayColon flow ':' far.head? = false := by
    cases far with
    | nil => simp [strayColon]
    | cons y far =>
      have : isFlowIndicator y = false ∧ y ≠ '?' := by
        constructor
        · rw [Bool.eq_false_iff]
          intro indicator
          simp only [isFlowIndicator, Bool.or_eq_true, beq_iff_eq] at indicator
          rcases indicator with (((rfl | rfl) | rfl) | rfl) | rfl <;>
            simp [isBlankOrEnd, isSolid, isSpaceOrTab, inLine, isBreak] at blank
        · rintro rfl
          simp [isBlankOrEnd, isSolid, isSpaceOrTab, inLine, isBreak] at blank
      simp [strayColon, this]
  simp [plainPart, stray, endsPlain, blank]

/-- The part of a plain scalar ends before the `:` at the end of the stretch. -/
lemma plainPart_ahead {flow : Bool} {xs xs' : List Char} (ahead : f.Ahead xs xs') :
    plainPart flow xs' = plainPart flow xs
      ∧ ∀ part, plainPart flow xs = some part →
        f.Ahead (xs.drop part.length) (xs'.drop part.length) := by
  induction xs generalizing xs' with
  | nil =>
    obtain rfl := ahead.nil
    exact ⟨rfl, fun part _ => by simpa using ahead⟩
  | cons x xs ih =>
    obtain ⟨rest', rfl, later | ⟨rfl, rfl, rfl⟩⟩ := ahead.cons
    · obtain ⟨same, on⟩ := ih later
      simp only [plainPart]
      rw [same, later.head?]
      refine ⟨rfl, fun part reads => ?_⟩
      split at reads
      · obtain rfl : [] = part := by simpa using reads
        exact ahead
      split at reads
      · simp at reads
      split at reads
      · obtain rfl : [] = part := by simpa using reads
        exact ahead
      · obtain ⟨part, ends, rfl⟩ := Option.map_eq_some_iff.mp reads
        exact on part ends
    · rw [plainPart_colon f.blank, plainPart_colon f.blank']
      refine ⟨rfl, fun part reads => ?_⟩
      obtain rfl : [] = part := by simpa using reads
      exact ahead

lemma takeGap_lt {indent : Int} {fuel : Nat} {gap gap' : Gap}
    (blank : c.peek.any (fun x => isSpaceOrTab x || isBreak x) = true)
    (reads : takeGap indent fuel gap c = some (gap', d)) : d.rest.length < c.rest.length := by
  cases fuel with
  | zero => simp [takeGap] at reads
  | succ fuel =>
    obtain ⟨x, next, blank⟩ : ∃ x, c.peek = some x ∧ (isSpaceOrTab x || isBreak x) = true := by
      simpa [Option.any_eq_true] using blank
    have one := advance_lt next
    simp only [takeGap, next] at reads
    by_cases space : isSpaceOrTab x = true
    · simp only [if_pos space] at reads
      repeat' split at reads
      · simp at reads
      all_goals exact Nat.lt_of_le_of_lt (takeGap_le reads) one
    · have breaks : isBreak x = true := by simpa [space] using blank
      have line := takeBreak_lt next breaks
      simp only [if_neg space, if_pos breaks] at reads
      split at reads
      all_goals exact Nat.lt_of_le_of_lt (takeGap_le reads) line

lemma plainFrom_le {flow : Bool} {indent : Int} {fuel : Nat} {gap : Gap} {text : List Char}
    {broken : Bool} (reads : plainFrom flow indent fuel gap c = some (text, d, broken)) :
    d.rest.length ≤ c.rest.length := by
  induction fuel generalizing c gap text broken with
  | zero => simp [plainFrom] at reads
  | succ fuel ih =>
    rw [plainFrom] at reads
    split at reads
    · simp_all
    · obtain ⟨part, -, reads⟩ := Option.bind_eq_some_iff.mp reads
      have on := advance_le c part.length
      simp only at reads
      split at reads
      · simp_all
      · obtain ⟨⟨gap, e⟩, passes, reads⟩ := Option.bind_eq_some_iff.mp reads
        have further := takeGap_le passes
        simp only at reads
        split at reads
        · obtain ⟨-, rfl, -⟩ : _ ∧ e = d ∧ gap.broken = broken := by simpa using reads
          omega
        · obtain ⟨⟨later, e', more⟩, tail, result⟩ := Option.bind_eq_some_iff.mp reads
          obtain ⟨-, rfl, -⟩ : _ ∧ e' = d ∧ more = broken := by simpa using result
          have := ih tail
          omega

lemma plainPart_ne_nil {flow : Bool} {x : Char} {xs part : List Char} (solid : isSolid x = true)
    (goes : endsPlain flow x xs.head? = false) (reads : plainPart flow (x :: xs) = some part) :
    part ≠ [] := by
  rintro rfl
  simp only [plainPart, solid, goes, Bool.not_true, Bool.false_eq_true, if_false] at reads
  split at reads <;> simp at reads

/-- A plain scalar takes a character where one may begin. -/
lemma plainFrom_lt {flow : Bool} {indent : Int} {fuel : Nat} {gap : Gap} {text : List Char}
    {broken : Bool} {x : Char} (next : c.peek = some x) (marker : atMarker c = false)
    (comment : x ≠ '#') (solid : isSolid x = true)
    (goes : endsPlain flow x (c.peekAt 1) = false)
    (reads : plainFrom flow indent fuel gap c = some (text, d, broken)) :
    d.rest.length < c.rest.length := by
  cases fuel with
  | zero => simp [plainFrom] at reads
  | succ fuel =>
    cases rest : c.rest with
    | nil => simp [Cursor.peek, rest] at next
    | cons y later =>
      obtain rfl : y = x := by simpa [Cursor.peek, rest] using next
      rw [plainFrom, if_neg (by simp [marker, Cursor.sees, next, comment])] at reads
      obtain ⟨part, first, reads⟩ := Option.bind_eq_some_iff.mp reads
      have some := plainPart_ne_nil solid
        (by simpa [Cursor.peekAt, rest, List.head?_eq_getElem?] using goes) (rest ▸ first)
      have positive := List.length_pos_iff.mpr some
      have on : (c.advance part.length).rest.length < (y :: later).length := by
        simp only [Cursor.advance, rest, List.length_drop, List.length_cons]
        omega
      simp only at reads
      split at reads
      · obtain ⟨-, rfl, -⟩ : _ ∧ _ = d ∧ _ := by simpa using reads
        exact on
      · obtain ⟨⟨gap, e⟩, passes, reads⟩ := Option.bind_eq_some_iff.mp reads
        have further := Nat.lt_of_le_of_lt (takeGap_le passes) on
        simp only at reads
        split at reads
        · obtain ⟨-, rfl, -⟩ : _ ∧ e = d ∧ gap.broken = broken := by simpa using reads
          exact further
        · obtain ⟨⟨later, e', more⟩, tail, result⟩ := Option.bind_eq_some_iff.mp reads
          obtain ⟨-, rfl, -⟩ : _ ∧ e' = d ∧ more = broken := by simpa using result
          exact Nat.lt_of_le_of_lt (plainFrom_le tail) further

/-- A plain scalar ends before the `:` at the end of the stretch. -/
lemma plainFrom_twin {flow : Bool} {indent : Int} {fuel : Nat} {gap : Gap} {text : List Char}
    {broken : Bool} (twin : f.Twin c c')
    (reads : plainFrom flow indent fuel gap c = some (text, d, broken)) {fuel' : Nat}
    (enough : c'.rest.length < fuel') :
    ∃ d', plainFrom flow indent fuel' gap c' = some (text, d', broken) ∧ f.Twin d d' := by
  induction fuel generalizing c c' gap text broken fuel' with
  | zero => simp [plainFrom] at reads
  | succ fuel ih =>
    obtain ⟨fuel', rfl⟩ : ∃ n, fuel' = n + 1 := ⟨fuel' - 1, by omega⟩
    rw [plainFrom] at reads ⊢
    rw [atMarker_twin twin, twin.sees]
    split at reads
    case isTrue stops =>
      simp only [Option.some.injEq, Prod.mk.injEq] at reads
      obtain ⟨rfl, rfl, rfl⟩ := reads
      exact ⟨c', by rw [if_pos stops], twin⟩
    case isFalse goes =>
      rw [if_neg goes]
      obtain ⟨part, first, reads⟩ := Option.bind_eq_some_iff.mp reads
      obtain ⟨same, on⟩ := @plainPart_ahead f flow _ _ twin.rest
      have behind : f.Twin (c.advance part.length) (c'.advance part.length) :=
        twin.advance (on part first).inside
      simp only [same, first, Option.bind_eq_bind, Option.bind_some, behind.peek] at reads ⊢
      split at reads
      case isTrue ends =>
        simp only [Option.some.injEq, Prod.mk.injEq] at reads
        obtain ⟨rfl, rfl, rfl⟩ := reads
        exact ⟨_, by rw [if_pos ends], behind⟩
      case isFalse more =>
        rw [if_neg more]
        obtain ⟨⟨gap, e⟩, passes, reads⟩ := Option.bind_eq_some_iff.mp reads
        obtain ⟨e', passes', next⟩ := takeGap_twin behind passes (Nat.lt_succ_self _)
        have shorter := takeGap_lt (by rw [behind.peek]; simpa using more) passes'
        have := advance_le c' part.length
        simp only [passes', Option.bind_some, next.column] at reads ⊢
        split at reads
        case isTrue outside =>
          simp only [Option.some.injEq, Prod.mk.injEq] at reads
          obtain ⟨rfl, rfl, rfl⟩ := reads
          exact ⟨_, by rw [if_pos outside], next⟩
        case isFalse inside =>
          rw [if_neg inside]
          obtain ⟨⟨later, e₁, more⟩, tail, result⟩ := Option.bind_eq_some_iff.mp reads
          simp only [Option.pure_def, Option.some.injEq, Prod.mk.injEq] at result
          obtain ⟨rfl, rfl, rfl⟩ := result
          have short : e'.rest.length < fuel' := by omega
          obtain ⟨d', tail', last⟩ := ih next tail short
          exact ⟨d', by simp [tail'], last⟩

/-! ## Quoted scalars -/

/-- An escape within the stretch is the same in both texts. -/
lemma takeEscape_ahead {xs xs' : List Char} (ahead : f.Ahead xs xs') {x : Char} {count : Nat}
    (reads : takeEscape xs = some (x, count))
    (inside : f.Joined ∨ f.far.length < (xs.drop count).length) :
    takeEscape xs' = some (x, count) := by
  cases xs with
  | nil => simp [takeEscape] at reads
  | cons y xs =>
    obtain ⟨rest', rfl, later⟩ := ahead.cons
    simp only [takeEscape] at reads ⊢
    cases short : escape? y with
    | some c => simpa only [short] using reads
    | none =>
      simp only [short] at reads ⊢
      obtain ⟨n, digits, reads⟩ := Option.bind_eq_some_iff.mp reads
      split at reads
      · simp at reads
      case isFalse enough =>
        obtain ⟨code, number, reads⟩ := Option.bind_eq_some_iff.mp reads
        obtain ⟨z, character, result⟩ := Option.bind_eq_some_iff.mp reads
        obtain ⟨rfl, rfl⟩ : z = x ∧ n + 1 = count := by simpa using result
        have same : rest'.take n = xs.take n := by
          rcases later with later | ⟨rfl, -⟩
          · exact later.take inside
          · exact absurd digits (by simp [escapeDigits?])
        simp only [digits, same, if_neg enough, number, character, Option.bind_eq_bind,
          Option.bind_some, Option.pure_def]

/-- What a part of a quoted scalar does next. -/
inductive Round where
  /-- It ends here. -/
  | stop
  /-- It ends behind an escaped break. -/
  | fold
  /-- It goes on behind so many characters, which stand for `x`. -/
  | goOn (x : Char) (count : Nat)

/-- How many characters a round passes, an escaped break apart. -/
def Round.count : Round → Nat
  | .stop => 0
  | .fold => 1
  | .goOn _ count => count

/-- What comes behind a backslash. -/
def escapedRound? (rest : List Char) : Option Round := do
  let y ← rest.head?
  if isBreak y then some .fold
  else
    let (z, count) ← takeEscape rest
    some (.goOn z (count + 1))

/-- The round of a part of a quoted scalar with these characters ahead. -/
def round? (double : Bool) : List Char → Option Round
  | [] => some .stop
  | x :: rest =>
    if !isSolid x then some .stop
    else if !double && x == '\'' then some (if rest.head? == some '\'' then .goOn '\'' 2 else .stop)
    else if double && x == '"' then some .stop
    else if double && x == '\\' then escapedRound? rest
    else some (.goOn x 1)

/-- A part of a quoted scalar, round by round. -/
lemma quotedPart_succ (double : Bool) (fuel : Nat) (c : Cursor) :
    quotedPart double (fuel + 1) c = (round? double c.rest).bind fun
      | .stop => some ([], c, false)
      | .fold => some ([], (takeBreak (c.advance 1)).2, true)
      | .goOn x count => (quotedPart double fuel (c.advance count)).map
          fun (part, d, escaped) => (x :: part, d, escaped) := by
  simp only [quotedPart]
  cases c.rest with
  | nil => rfl
  | cons x rest =>
    simp only [round?]
    split_ifs with blank single twice quote slash
    · rfl
    · rfl
    · rfl
    · rfl
    · unfold escapedRound?
      cases rest.head? with
      | none => rfl
      | some y =>
        simp only [Option.bind_eq_bind, Option.bind_some]
        split_ifs
        · rfl
        · cases takeEscape rest <;> rfl
    · rfl

/-- A backslash ends nothing by itself, and what goes on behind it has passed it. -/
lemma of_escapedRound? {rest : List Char} {round : Round} (next : escapedRound? rest = some round) :
    round = .fold ∨ ∃ z count, round = .goOn z (count + 1) := by
  obtain ⟨y, -, next⟩ := Option.bind_eq_some_iff.mp next
  split_ifs at next
  · exact .inl (Option.some.inj next).symm
  · obtain ⟨⟨z, count⟩, -, result⟩ := Option.bind_eq_some_iff.mp next
    exact .inr ⟨z, count, (Option.some.inj result).symm⟩

/-- A part of a quoted scalar ends at the end of the text, a blank, a break or the quote. -/
lemma ends_of_round?_stop {double : Bool} (next : round? double c.rest = some .stop) :
    c.rest = [] ∨ c.sees (if double then '"' else '\'') = true
      ∨ c.peek.any (fun x => isSpaceOrTab x || isBreak x) = true := by
  cases rest : c.rest with
  | nil => exact .inl rfl
  | cons x later =>
    have first : c.peek = some x := by simp [Cursor.peek, rest]
    right
    simp only [round?, rest] at next
    split_ifs at next with blank single twice quote slash
    · right
      simpa [first, isSolid, inLine] using blank
    · cases next
    · left
      simp_all [Cursor.sees]
    · left
      simp_all [Cursor.sees]
    · obtain none | ⟨_, _, none⟩ := of_escapedRound? next <;> cases none
    · cases next

lemma count_pos_of_round? {double : Bool} {xs : List Char} {x : Char} {count : Nat}
    (next : round? double xs = some (.goOn x count)) : xs ≠ [] ∧ 0 < count := by
  cases xs with
  | nil => cases next
  | cons y rest =>
    refine ⟨List.cons_ne_nil _ _, ?_⟩
    simp only [round?] at next
    split_ifs at next
    · cases next
    · cases next
      exact Nat.two_pos
    · cases next
    · cases next
    · obtain none | ⟨z, n, some_⟩ := of_escapedRound? next
      · cases none
      · cases some_
        exact Nat.succ_pos n
    · cases next
      exact Nat.one_pos

/-- A round within the stretch is the same in both texts. -/
lemma round?_ahead {double : Bool} {xs xs' : List Char} {round : Round} (ahead : f.Ahead xs xs')
    (next : round? double xs = some round)
    (inside : f.Joined ∨ f.far.length < (xs.drop round.count).length) :
    round? double xs' = some round := by
  cases xs with
  | nil => rwa [ahead.nil]
  | cons x rest =>
    obtain ⟨rest', rfl, second | ⟨rfl, -⟩⟩ := ahead.cons
    · simp only [round?, second.head?] at next ⊢
      split_ifs at next ⊢ with blank single twice quote slash
      · exact next
      · exact next
      · exact next
      · exact next
      · obtain ⟨y, first, escapes⟩ := Option.bind_eq_some_iff.mp next
        unfold escapedRound? at next ⊢
        rw [second.head?]
        simp only [first, Option.bind_eq_bind, Option.bind_some] at next ⊢
        split_ifs at next ⊢
        · exact next
        · obtain ⟨⟨z, count⟩, escape, result⟩ := Option.bind_eq_some_iff.mp next
          obtain rfl : .goOn z (count + 1) = round := by simpa using result
          rw [takeEscape_ahead second escape (by simpa [Round.count] using inside)]
          rfl
      · exact next
    · cases double <;> simpa [round?, isSolid, inLine, isSpaceOrTab, isBreak] using next

lemma quotedPart_le {double : Bool} {fuel : Nat} {part : List Char} {escaped : Bool}
    (reads : quotedPart double fuel c = some (part, d, escaped)) :
    d.rest.length ≤ c.rest.length := by
  induction fuel generalizing c part with
  | zero => simp [quotedPart] at reads
  | succ fuel ih =>
    rw [quotedPart_succ] at reads
    obtain ⟨round, -, reads⟩ := Option.bind_eq_some_iff.mp reads
    cases round with
    | stop =>
      obtain ⟨-, rfl, -⟩ : [] = part ∧ c = d ∧ false = escaped := by simpa using reads
      exact Nat.le_refl _
    | fold =>
      obtain ⟨-, rfl, -⟩ : [] = part ∧ _ = d ∧ true = escaped := by simpa using reads
      exact Nat.le_trans (takeBreak_le (c.advance 1)) (advance_le c 1)
    | goOn x count =>
      obtain ⟨⟨part, e, more⟩, rest, result⟩ := Option.map_eq_some_iff.mp reads
      obtain ⟨-, rfl, rfl⟩ : _ ∧ e = d ∧ more = escaped := by simpa using result
      exact Nat.le_trans (ih rest) (advance_le c count)

/-- Where a part of a quoted scalar ends: at the end of the text, a blank, a break or the quote, or
behind an escaped break. -/
lemma quotedPart_stops {double : Bool} {fuel : Nat} {part : List Char} {escaped : Bool}
    (reads : quotedPart double fuel c = some (part, d, escaped)) :
    (escaped = true → d.rest.length < c.rest.length) ∧
      (escaped = false → d.rest = [] ∨ d.sees (if double then '"' else '\'') = true
        ∨ d.peek.any (fun x => isSpaceOrTab x || isBreak x) = true) := by
  induction fuel generalizing c part with
  | zero => simp [quotedPart] at reads
  | succ fuel ih =>
    rw [quotedPart_succ] at reads
    obtain ⟨round, next, reads⟩ := Option.bind_eq_some_iff.mp reads
    cases round with
    | stop =>
      obtain ⟨-, rfl, rfl⟩ : [] = part ∧ c = d ∧ false = escaped := by simpa using reads
      exact ⟨nofun, fun _ => ends_of_round?_stop next⟩
    | fold =>
      obtain ⟨-, rfl, rfl⟩ : [] = part ∧ _ = d ∧ true = escaped := by simpa using reads
      refine ⟨fun _ => ?_, nofun⟩
      cases rest : c.rest with
      | nil => simp [round?, rest] at next
      | cons x later =>
        rw [← rest]
        exact Nat.lt_of_le_of_lt (takeBreak_le (c.advance 1))
          (advance_lt (show c.peek = some x by simp [Cursor.peek, rest]))
    | goOn x count =>
      obtain ⟨⟨part, e, more⟩, rest, result⟩ := Option.map_eq_some_iff.mp reads
      obtain ⟨-, rfl, rfl⟩ : _ ∧ e = d ∧ more = escaped := by simpa using result
      exact (ih rest).imp (fun lt yes => Nat.lt_of_lt_of_le (lt yes) (advance_le c count)) id

lemma quotedPart_twin {double : Bool} {fuel : Nat} {part : List Char} {escaped : Bool}
    (twin : f.Twin c c') (reads : quotedPart double fuel c = some (part, d, escaped))
    (inside : f.Inside d) {fuel' : Nat} (enough : c'.rest.length < fuel') :
    ∃ d', quotedPart double fuel' c' = some (part, d', escaped) ∧ f.Twin d d' := by
  induction fuel generalizing c c' part fuel' with
  | zero => simp [quotedPart] at reads
  | succ fuel ih =>
    obtain ⟨fuel', rfl⟩ : ∃ n, fuel' = n + 1 := ⟨fuel' - 1, by omega⟩
    rw [quotedPart_succ] at reads ⊢
    obtain ⟨round, next, reads⟩ := Option.bind_eq_some_iff.mp reads
    cases round with
    | stop =>
      obtain ⟨rfl, rfl, rfl⟩ : [] = part ∧ c = d ∧ false = escaped := by simpa using reads
      rw [round?_ahead twin.rest next inside]
      exact ⟨c', rfl, twin⟩
    | fold =>
      obtain ⟨rfl, rfl, rfl⟩ : [] = part ∧ _ = d ∧ true = escaped := by simpa using reads
      have behind : f.Inside (c.advance 1) := inside.mono (takeBreak_le _)
      rw [round?_ahead twin.rest next behind]
      exact ⟨_, rfl, (takeBreak_twin (twin.advance behind) inside).2⟩
    | goOn x count =>
      obtain ⟨⟨part, e, more⟩, goes, result⟩ := Option.map_eq_some_iff.mp reads
      obtain ⟨rfl, rfl, rfl⟩ : x :: part = _ ∧ e = d ∧ more = escaped := by simpa using result
      have behind : f.Inside (c.advance count) := inside.mono (quotedPart_le goes)
      have next' := round?_ahead twin.rest next behind
      obtain ⟨some_, positive⟩ := count_pos_of_round? next'
      have short : (c'.advance count).rest.length < fuel' := by
        have := List.length_pos_iff.mpr some_
        simp only [Cursor.advance, List.length_drop]
        omega
      obtain ⟨d', goes', last⟩ := ih (twin.advance behind) goes short
      rw [next']
      exact ⟨d', by simp [goes'], last⟩

lemma quotedFrom_le {double : Bool} {fuel : Nat} {text : List Char}
    (reads : quotedFrom double fuel c = some (text, d)) : d.rest.length ≤ c.rest.length := by
  induction fuel generalizing c text with
  | zero => simp [quotedFrom] at reads
  | succ fuel ih =>
    rw [quotedFrom] at reads
    split at reads
    · simp at reads
    · obtain ⟨⟨part, e, escaped⟩, first, reads⟩ := Option.bind_eq_some_iff.mp reads
      have on := quotedPart_le first
      by_cases closed : (!escaped && e.sees (if double then '"' else '\'')) = true
      · simp only [if_pos closed, Option.some.injEq, Prod.mk.injEq] at reads
        obtain ⟨rfl, rfl⟩ := reads
        exact Nat.le_trans (advance_le e 1) on
      · simp only [if_neg closed] at reads
        obtain ⟨⟨gap, e₁⟩, passes, reads⟩ := Option.bind_eq_some_iff.mp reads
        obtain ⟨⟨later, e₂⟩, tail, result⟩ := Option.bind_eq_some_iff.mp reads
        obtain ⟨-, rfl⟩ : _ ∧ e₂ = d := by simpa using result
        exact Nat.le_trans (ih tail) (Nat.le_trans (takeGap_le passes) on)

lemma quotedFrom_twin {double : Bool} {fuel : Nat} {text : List Char} (twin : f.Twin c c')
    (reads : quotedFrom double fuel c = some (text, d)) (inside : f.Inside d) {fuel' : Nat}
    (enough : c'.rest.length < fuel') :
    ∃ d', quotedFrom double fuel' c' = some (text, d') ∧ f.Twin d d' := by
  induction fuel generalizing c c' text fuel' with
  | zero => simp [quotedFrom] at reads
  | succ fuel ih =>
    obtain ⟨fuel', rfl⟩ : ∃ n, fuel' = n + 1 := ⟨fuel' - 1, by omega⟩
    rw [quotedFrom] at reads ⊢
    rw [atMarker_twin twin, twin.atEnd]
    split at reads
    · simp at reads
    case isFalse goes =>
      rw [if_neg goes]
      obtain ⟨⟨part, e, escaped⟩, first, reads⟩ := Option.bind_eq_some_iff.mp reads
      by_cases closed : (!escaped && e.sees (if double then '"' else '\'')) = true
      · simp only [if_pos closed, Option.some.injEq, Prod.mk.injEq] at reads
        obtain ⟨rfl, rfl⟩ := reads
        obtain ⟨e', first', behind⟩ := quotedPart_twin twin first inside.of_advance (Nat.lt_succ_self _)
        refine ⟨e'.advance 1, ?_, behind.advance inside⟩
        simp only [first', Option.bind_eq_bind, Option.bind_some, behind.sees, if_pos closed]
      · simp only [if_neg closed] at reads
        obtain ⟨⟨gap, e₁⟩, passes, reads⟩ := Option.bind_eq_some_iff.mp reads
        obtain ⟨⟨later, e₂⟩, tail, result⟩ := Option.bind_eq_some_iff.mp reads
        obtain ⟨rfl, rfl⟩ : part ++ gap.text ++ later = text ∧ e₂ = d := by simpa using result
        have within := inside.mono (quotedFrom_le tail)
        obtain ⟨e', first', behind⟩ :=
          quotedPart_twin twin first (within.mono (takeGap_le passes)) (Nat.lt_succ_self _)
        obtain ⟨e₁', passes', next⟩ := takeGap_twin behind passes (Nat.lt_succ_self _)
        -- each round passes a character, so that the rounds that are left are enough
        have short : e₁'.rest.length < fuel' := by
          have on := quotedPart_le first'
          have further := takeGap_le passes'
          obtain ⟨strict, stops⟩ := quotedPart_stops first'
          cases escaped with
          | true =>
            have := strict rfl
            omega
          | false =>
            have open' : e'.sees (if double then '"' else '\'') = false := by
              rw [behind.sees]; simpa using closed
            rcases stops rfl with none | quote | blank
            · have : 0 < c'.rest.length := by
                have := goes
                rw [← twin.atEnd] at this
                simp only [Cursor.atEnd, Bool.or_eq_true, List.isEmpty_iff, not_or] at this
                exact List.length_pos_iff.mpr this.2
              simp only [none, List.length_nil] at further
              omega
            · rw [open'] at quote
              simp at quote
            · have := takeGap_lt blank passes'
              omega
        obtain ⟨d', tail', last⟩ := ih next tail short
        refine ⟨d', ?_, last⟩
        simp only [first', Option.bind_eq_bind, Option.bind_some, behind.sees, if_neg closed, passes', tail',
          Option.pure_def]

/-! ## Block scalars -/

/-- The mark ahead, if there is one, and the place behind it. -/
def mark {α : Type} (test : Char → Option α) (c : Cursor) : Option α × Cursor :=
  match c.peek.bind test with
  | some a => (some a, c.advance 1)
  | none => (none, c)

/-- The digit that gives the indentation of a block scalar. -/
def digit? (x : Char) : Option Nat := if x.isDigit then some (x.toNat - 48) else none

/-- The header of a block scalar, mark by mark. -/
lemma blockHeader_eq (c : Cursor) :
    blockHeader c =
      let first := mark chomping? c
      let digit := mark digit? first.2
      let last := if first.1 = none ∧ digit.1 ≠ none then mark chomping? digit.2 else (none, digit.2)
      if digit.1 = some 0 then none
      else some ((first.1.or last.1).getD .clip, digit.1, last.2) := by
  have digits (x : Option Char) :
      (x.filter Char.isDigit).map (fun x => x.toNat - 48) = x.bind digit? := by
    cases x with
    | none => rfl
    | some x => by_cases isDigit : x.isDigit = true <;> simp [digit?, Option.filter, isDigit]
  simp only [blockHeader, digits]
  rcases first : c.peek.bind chomping? with _ | one
  · simp only [mark, first]
    rcases second : c.peek.bind digit? with _ | two
    · simp
    · simp only
      rcases third : (c.advance 1).peek.bind chomping? with _ | three <;> simp
  · simp only [mark, first]
    rcases second : (c.advance 1).peek.bind digit? with _ | two <;> simp

lemma mark_le {α : Type} (test : Char → Option α) (c : Cursor) :
    (mark test c).2.rest.length ≤ c.rest.length := by
  unfold mark
  split
  · exact advance_le c 1
  · exact Nat.le_refl _

lemma mark_twin {α : Type} {test : Char → Option α} (colon : test ':' = none) (twin : f.Twin c c') :
    (mark test c').1 = (mark test c).1 ∧ f.Twin (mark test c).2 (mark test c').2 := by
  unfold mark
  rw [twin.peek]
  split
  case h_1 a found =>
    obtain ⟨x, next, found⟩ := Option.bind_eq_some_iff.mp found
    exact ⟨rfl, twin.advance_one next (by rintro rfl; simp [colon] at found)⟩
  case h_2 => exact ⟨rfl, twin⟩

lemma blockHeader_le {chomping : Chomping} {increment : Option Nat}
    (reads : blockHeader c = some (chomping, increment, d)) : d.rest.length ≤ c.rest.length := by
  rw [blockHeader_eq] at reads
  have one := mark_le chomping? c
  have two := mark_le digit? (mark chomping? c).2
  have three := mark_le chomping? (mark digit? (mark chomping? c).2).2
  simp only [Option.ite_none_left_eq_some, Option.some.injEq, Prod.mk.injEq] at reads
  obtain ⟨-, -, -, rfl⟩ := reads
  split
  · omega
  · simp only
    omega

lemma blockHeader_twin {chomping : Chomping} {increment : Option Nat} (twin : f.Twin c c')
    (reads : blockHeader c = some (chomping, increment, d)) :
    ∃ d', blockHeader c' = some (chomping, increment, d') ∧ f.Twin d d' := by
  rw [blockHeader_eq] at reads ⊢
  obtain ⟨first, twin⟩ := @mark_twin f _ _ _ chomping? rfl twin
  obtain ⟨second, twin⟩ := @mark_twin f _ _ _ digit? rfl twin
  obtain ⟨third, last⟩ := @mark_twin f _ _ _ chomping? rfl twin
  simp only [Option.ite_none_left_eq_some, Option.some.injEq, Prod.mk.injEq, first, second] at reads ⊢
  obtain ⟨zero, rfl, rfl, rfl⟩ := reads
  split
  · exact ⟨_, ⟨zero, by rw [third], rfl, rfl⟩, last⟩
  · exact ⟨_, ⟨zero, rfl, rfl, rfl⟩, twin⟩

/-- How many of the spaces ahead belong to the indentation of a block scalar. -/
def margin (indent : Option Nat) (c : Cursor) : Nat :=
  match indent with
  | some indent => min (c.ahead (· == ' ')).length (indent - c.column)
  | none => (c.ahead (· == ' ')).length

/-- Whether a place stands within the indentation of a block scalar. -/
def early (indent : Option Nat) (c : Cursor) : Bool :=
  match indent with
  | some indent => decide (c.column < indent)
  | none => true

lemma blockBreaks_succ (indent : Option Nat) (fuel widest : Nat) (breaks : List Char) (c : Cursor) :
    blockBreaks indent (fuel + 1) widest breaks c =
      let e := c.advance (margin indent c)
      if e.sees '\t' && early indent e then none
      else if e.peek.any isBreak then
        blockBreaks indent fuel (max widest e.column) (breaks ++ (takeBreak e).1) (takeBreak e).2
      else some (max widest e.column, breaks, e) := by
  cases indent <;> rfl

lemma blockBreaks_le {indent : Option Nat} {fuel widest widest' : Nat} {breaks breaks' : List Char}
    (reads : blockBreaks indent fuel widest breaks c = some (widest', breaks', d)) :
    d.rest.length ≤ c.rest.length := by
  induction fuel generalizing c widest breaks with
  | zero => simp [blockBreaks] at reads
  | succ fuel ih =>
    have on := advance_le c (margin indent c)
    simp only [blockBreaks_succ] at reads
    split at reads
    · simp at reads
    split at reads
    · exact Nat.le_trans (ih reads) (Nat.le_trans (takeBreak_le _) on)
    · obtain ⟨-, -, rfl⟩ : _ ∧ _ ∧ c.advance (margin indent c) = d := by simpa using reads
      exact on

lemma margin_twin (twin : f.Twin c c') (indent : Option Nat) :
    margin indent c' = margin indent c
      ∧ f.Twin (c.advance (margin indent c)) (c'.advance (margin indent c)) := by
  have spaces : f.Inside (c.skipWhile (· == ' ')) := twin.inside_skipWhile rfl
  have most : margin indent c ≤ (c.ahead (· == ' ')).length := by
    cases indent with
    | none => exact Nat.le_refl _
    | some indent => exact Nat.min_le_left _ _
  refine ⟨by simp only [margin, twin.ahead spaces, twin.column], twin.advance (spaces.mono ?_)⟩
  simp only [Cursor.skipWhile, Cursor.advance, List.length_drop]
  omega

/-- Empty lines and indentation end before the `:` at the end of the stretch. -/
lemma blockBreaks_twin {indent : Option Nat} {fuel widest widest' : Nat} {breaks breaks' : List Char}
    (twin : f.Twin c c')
    (reads : blockBreaks indent fuel widest breaks c = some (widest', breaks', d)) {fuel' : Nat}
    (enough : c'.rest.length < fuel') :
    ∃ d', blockBreaks indent fuel' widest breaks c' = some (widest', breaks', d') ∧ f.Twin d d' := by
  induction fuel generalizing c c' widest breaks fuel' with
  | zero => simp [blockBreaks] at reads
  | succ fuel ih =>
    obtain ⟨fuel', rfl⟩ : ∃ n, fuel' = n + 1 := ⟨fuel' - 1, by omega⟩
    obtain ⟨same, behind⟩ := margin_twin twin indent
    have within : early indent (c'.advance (margin indent c)) =
        early indent (c.advance (margin indent c)) := by
      simp only [early, behind.column]
    simp only [blockBreaks_succ, same, within, behind.sees, behind.column, behind.peek] at reads ⊢
    split at reads
    · simp at reads
    case isFalse indented =>
    rw [if_neg indented]
    split at reads
    case isTrue breaks =>
      obtain ⟨x, next, ends⟩ : ∃ x, (c.advance (margin indent c)).peek = some x ∧ isBreak x = true := by
        simpa [Option.any_eq_true] using breaks
      obtain ⟨text, on⟩ := takeBreak_twin behind (inside_takeBreak behind next ends)
      have := takeBreak_lt (behind.peek.trans next) ends
      have := advance_le c' (margin indent c)
      simp only [if_pos breaks, text]
      exact ih on reads (by omega)
    case isFalse text =>
      simp only [if_neg text, Option.some.injEq, Prod.mk.injEq] at reads ⊢
      obtain ⟨rfl, rfl, rfl⟩ := reads
      exact ⟨_, ⟨rfl, rfl, rfl⟩, behind⟩

lemma takeBreak_skipWhile_lt (more : c.atEnd = false) :
    (takeBreak (c.skipWhile inLine)).2.rest.length < c.rest.length := by
  have on := takeBreak_le (c.skipWhile inLine)
  cases rest : c.rest with
  | nil => simp [Cursor.atEnd, rest] at more
  | cons x later =>
    have next : c.peek = some x := by simp [Cursor.peek, rest]
    by_cases ends : isBreak x = true
    · have none : c.ahead inLine = [] := by simp [Cursor.ahead, rest, inLine, ends]
      have here : c.skipWhile inLine = c := by simp [Cursor.skipWhile, none, Cursor.advance]
      rw [here, ← rest]
      exact takeBreak_lt next ends
    · have : (c.skipWhile inLine).rest.length < c.rest.length := by
        have takes : (c.ahead inLine).length = (later.takeWhile inLine).length + 1 := by
          simp [Cursor.ahead, rest, inLine, ends]
        simp only [Cursor.skipWhile, Cursor.advance, takes, rest, List.length_drop, List.length_cons]
        omega
      rw [← rest]
      omega

lemma blockLines_le {literal : Bool} {indent fuel : Nat} {leading trailing : List Char} {blank : Bool}
    {text leading' trailing' : List Char}
    (reads : blockLines literal indent fuel leading trailing blank c =
      some (text, leading', trailing', d)) : d.rest.length ≤ c.rest.length := by
  induction fuel generalizing c leading trailing blank text with
  | zero => simp [blockLines] at reads
  | succ fuel ih =>
    rw [blockLines] at reads
    split at reads
    · simp_all
    · simp only at reads
      obtain ⟨⟨widest, breaks, e⟩, passes, reads⟩ := Option.bind_eq_some_iff.mp reads
      obtain ⟨⟨later, l, t, e'⟩, tail, result⟩ := Option.bind_eq_some_iff.mp reads
      obtain ⟨-, rfl, rfl, rfl⟩ : _ ∧ l = leading' ∧ t = trailing' ∧ e' = d := by simpa using result
      have line := Nat.le_trans (takeBreak_le _) (advance_le c (c.ahead inLine).length)
      exact Nat.le_trans (ih tail) (Nat.le_trans (blockBreaks_le passes) line)

lemma blockLines_twin {literal : Bool} {indent fuel : Nat} {leading trailing : List Char}
    {blank : Bool} {text leading' trailing' : List Char} (twin : f.Twin c c')
    (reads : blockLines literal indent fuel leading trailing blank c =
      some (text, leading', trailing', d)) (inside : f.Inside d) {fuel' : Nat}
    (enough : c'.rest.length < fuel') :
    ∃ d', blockLines literal indent fuel' leading trailing blank c' =
      some (text, leading', trailing', d') ∧ f.Twin d d' := by
  induction fuel generalizing c c' leading trailing blank text fuel' with
  | zero => simp [blockLines] at reads
  | succ fuel ih =>
    obtain ⟨fuel', rfl⟩ : ∃ n, fuel' = n + 1 := ⟨fuel' - 1, by omega⟩
    rw [blockLines] at reads ⊢
    rw [twin.column, twin.atEnd]
    split at reads
    case isTrue ends =>
      simp only [Option.some.injEq, Prod.mk.injEq] at reads
      obtain ⟨rfl, rfl, rfl, rfl⟩ := reads
      exact ⟨c', by rw [if_pos ends], twin⟩
    case isFalse goes =>
      rw [if_neg goes]
      simp only at reads ⊢
      obtain ⟨⟨widest, breaks, e⟩, passes, reads⟩ := Option.bind_eq_some_iff.mp reads
      obtain ⟨⟨later, l, t, e'⟩, tail, result⟩ := Option.bind_eq_some_iff.mp reads
      simp only [Option.pure_def, Option.some.injEq, Prod.mk.injEq] at result
      obtain ⟨rfl, rfl, rfl, rfl⟩ := result
      have line := inside.mono (Nat.le_trans (blockLines_le tail) (blockBreaks_le passes))
      have within : f.Inside (c.skipWhile inLine) := line.mono (takeBreak_le _)
      obtain ⟨same, behind⟩ := takeBreak_twin (twin.skipWhile within) line
      obtain ⟨e₁, passes', next⟩ := blockBreaks_twin behind passes (Nat.lt_succ_self _)
      have short : e₁.rest.length < fuel' := by
        have := blockBreaks_le passes'
        have : (takeBreak (c'.skipWhile inLine)).2.rest.length < c'.rest.length :=
          takeBreak_skipWhile_lt (by simp_all [twin.atEnd])
        omega
      obtain ⟨d', tail', last⟩ := ih next tail short
      refine ⟨d', ?_, last⟩
      simp only [Cursor.skipWhile, twin.ahead within] at same passes'
      simp only [twin.ahead within, twin.peek, same, passes', Option.bind_eq_bind, Option.bind_some,
        tail', Option.pure_def]

lemma blockScalar_le {literal : Bool} {outer : Int} {text : List Char}
    (reads : blockScalar literal outer c = some (text, d)) : d.rest.length ≤ c.rest.length := by
  obtain ⟨⟨chomping, increment, e⟩, header, reads⟩ := Option.bind_eq_some_iff.mp reads
  obtain ⟨e₁, ends, reads⟩ := Option.bind_eq_some_iff.mp reads
  obtain ⟨⟨widest, breaks, e₂⟩, passes, reads⟩ := Option.bind_eq_some_iff.mp reads
  obtain ⟨⟨text, l, t, e₃⟩, lines, result⟩ := Option.bind_eq_some_iff.mp reads
  obtain ⟨-, rfl⟩ : _ ∧ e₃ = d := by simpa using result
  have line := Nat.le_trans (toLineEnd_le ends) (blockHeader_le header)
  have body := Nat.le_trans (blockLines_le lines) (blockBreaks_le passes)
  exact Nat.le_trans body (Nat.le_trans (takeBreak_le e₁) line)

lemma blockScalar_twin {literal : Bool} {outer : Int} {text : List Char} (twin : f.Twin c c')
    (reads : blockScalar literal outer c = some (text, d)) (inside : f.Inside d) :
    ∃ d', blockScalar literal outer c' = some (text, d') ∧ f.Twin d d' := by
  obtain ⟨⟨chomping, increment, e⟩, header, reads⟩ := Option.bind_eq_some_iff.mp reads
  obtain ⟨e₁, ends, reads⟩ := Option.bind_eq_some_iff.mp reads
  obtain ⟨⟨widest, breaks, e₂⟩, passes, reads⟩ := Option.bind_eq_some_iff.mp reads
  obtain ⟨⟨part, l, t, e₃⟩, lines, result⟩ := Option.bind_eq_some_iff.mp reads
  simp only [Option.pure_def, Option.some.injEq, Prod.mk.injEq] at result
  obtain ⟨rfl, rfl⟩ := result
  have behindBreak := inside.mono (Nat.le_trans (blockLines_le lines) (blockBreaks_le passes))
  obtain ⟨e', header', twin⟩ := blockHeader_twin twin header
  obtain ⟨e₁', ends', twin⟩ := toLineEnd_twin twin ends (behindBreak.mono (takeBreak_le _))
  obtain ⟨-, twin⟩ := takeBreak_twin twin behindBreak
  obtain ⟨e₂', passes', twin⟩ := blockBreaks_twin twin passes (Nat.lt_succ_self _)
  obtain ⟨e₃', lines', last⟩ := blockLines_twin twin lines inside (Nat.lt_succ_self _)
  refine ⟨e₃', ?_, last⟩
  simp only [blockScalar, header', ends', passes', lines', Option.bind_eq_bind, Option.bind_some,
    Option.pure_def]

end ChartLift.Yaml.Content
