import ChartLift.Proofs.Yaml.Content.Run
import ChartLift.Proofs.Yaml.Swap

/-!
# Tokens of a text with other ranges in it

A reader that comes past a range of its text may find itself as it would be behind another range in its
place. Where this is so for some ranges behind a `:`, each on its own, the tokens with all of the other
ranges in place are those of the text, but for the tokens of the ranges (`tokens_of_passes`).
-/

namespace ChartLift.Yaml.Content

open Fork

/-! ## What a reader is like -/

/-- A place where a key may have begun, seen from a reader that has come further. -/
structure KeyOutlook where
  required : Bool
  number : Int
  index : Int
  line : Int
  column : Nat
  deriving DecidableEq

/-- What of a reader decides what it gives from here on. -/
structure Outlook where
  rest : List Char
  column : Nat
  queue : List TokenKind
  indent : Int
  outer : List Int
  keys : List (Option KeyOutlook)
  keyAllowed : Bool
  finished : Bool
  deriving DecidableEq

namespace Lexer

variable {l j k m m' : Lexer}

/-- A place where a key may have begun, as a reader sees it. -/
def keyOutlook (l : Lexer) (key : PendingKey) : KeyOutlook where
  required := key.required
  number := key.number - l.emitted
  index := key.mark.index - l.cursor.index
  line := key.mark.line - l.cursor.line
  column := key.mark.column

/-- What is ahead of a reader, and what it has in mind. -/
def outlook (l : Lexer) : Outlook where
  rest := l.cursor.rest
  column := l.cursor.column
  queue := l.queue.map Token.kind
  indent := l.indent
  outer := l.outer
  keys := l.keys.map fun key => key.map l.keyOutlook
  keyAllowed := l.keyAllowed
  finished := l.finished

/-- A reader with another text ahead. -/
def facing (l : Lexer) (text : List Char) : Lexer := { l with cursor := { l.cursor with rest := text } }

end Lexer

/-- What relates a list to another relates one with the same image to it. -/
lemma forall₂_of_map_eq {α β γ δ : Type} {r : β → δ → Prop} {q : α → δ → Prop} {p : α → γ} {p' : β → γ}
    {xs : List α} {ys : List β} {zs : List δ} (same : ys.map p' = xs.map p) (both : List.Forall₂ r ys zs)
    (each : ∀ x y z, p' y = p x → r y z → q x z) : List.Forall₂ q xs zs := by
  induction both generalizing xs with
  | nil =>
    obtain rfl : xs = [] := by simpa using same.symm
    exact .nil
  | cons first _ ih =>
    cases xs with
    | nil => simp at same
    | cons x xs =>
      obtain ⟨eq, same⟩ : p' _ = p x ∧ _ := by simpa using same
      exact .cons (each x _ _ eq first) (ih same)

/-- How far a third reader is apart from `m`, if it is this far apart from `m'`. -/
def Shift.through (f : Shift) (m m' : Lexer) : Shift where
  index := f.index + m.cursor.index
  index' := f.index' + m'.cursor.index
  line := f.line + m.cursor.line
  line' := f.line' + m'.cursor.line
  count := f.count + m.emitted
  count' := f.count' + m'.emitted

lemma Shift.KeyTwin.through {f : Shift} {m m' : Lexer} {key key' last : PendingKey}
    (seen : m'.keyOutlook key' = m.keyOutlook key) (twin : f.KeyTwin key' last) :
    (f.through m m').KeyTwin key last := by
  obtain ⟨required, number, index, line, column⟩ := KeyOutlook.mk.inj seen
  have := twin.number
  have := twin.index
  have := twin.line
  refine ⟨twin.required.trans required, ?_, ?_, ?_, twin.column.trans column⟩ <;>
    simp only [Shift.through] <;> omega

/-- Readers with the same outlook are abreast of the same readers. -/
lemma Fork.Abreast.of_outlook_eq {f : Fork} {m m' l : Lexer} (same : m'.outlook = m.outlook)
    (abreast : f.Abreast m' l) : Abreast { f with toShift := f.through m m' } m l := by
  obtain ⟨rest, column, queue, indent, outer, keys, keyAllowed, finished⟩ := Outlook.mk.inj same
  have place := abreast.cursor
  have index := place.index
  have line := place.line
  have emitted := abreast.emitted
  refine { queue := abreast.queue.trans queue, indent := abreast.indent.trans indent,
           outer := abreast.outer.trans outer, keyAllowed := abreast.keyAllowed.trans keyAllowed,
           finished := abreast.finished.trans finished,
           emitted := by simp only [Shift.through]; omega,
           cursor := ⟨?_, by simp only [Shift.through]; omega, by simp only [Shift.through]; omega,
            place.column.trans column⟩,
           keys := forall₂_of_map_eq keys abreast.keys fun key key' last seen twin => ?_ }
  · cases twin with
    | none =>
      obtain rfl := Option.map_eq_none_iff.mp seen.symm
      exact .none
    | some twin =>
      obtain ⟨key, rfl, saw⟩ := Option.map_eq_some_iff.mp seen.symm
      exact .some (twin.through saw.symm)
  · rw [← rest]
    exact place.rest

/-! ## Passages -/

/-- A text range that gives way to another one: a `:` stands before both, and a blank or a break is what
they begin with. -/
structure Exchangeable (swap : Swap Char) : Prop where
  mark : swap.front.getLast? = some ':'
  old : swap.old.head?.map isSolid = some false
  new : swap.new.head?.map isSolid = some false

instance (swap : Swap Char) : Decidable (Exchangeable swap) :=
  decidable_of_iff (swap.front.getLast? = some ':' ∧ swap.old.head?.map isSolid = some false ∧
      swap.new.head?.map isSolid = some false)
    ⟨fun h => ⟨h.1, h.2.1, h.2.2⟩, fun h => ⟨h.mark, h.old, h.new⟩⟩

lemma isBlankOrEnd_append {xs rest : List Char} (blank : xs.head?.map isSolid = some false) :
    isBlankOrEnd (xs ++ rest).head? = true := by
  cases xs with
  | nil => cases blank
  | cons x xs => simpa [isBlankOrEnd] using blank

/-- A reader comes to stand behind a range of its text, having given some tokens before the range or
along with it. Were the other range in its place, it would come to stand alike, having given others. -/
inductive Lexer.Passes (swap : Swap Char) (rest : List Char) :
    Lexer → Swap TokenKind → Lexer → Prop where
  | intro {l j m m' : Lexer} {near : List Char} {front old new : List Token} {a b c : Nat}
      (way : Lexer.step.steps a l = some (front, j))
      (here : j.cursor.rest = near ++ (swap.old ++ rest)) (before : near ≠ [])
      (past : Lexer.step.steps b j = some (old, m))
      (past' : Lexer.step.steps c (j.facing (near ++ (swap.new ++ rest))) = some (new, m'))
      (same : m'.outlook = m.outlook) (live : m.Live) :
      Passes swap rest l ⟨front.map Token.kind, old.map Token.kind, new.map Token.kind⟩ m

/-- A reader passes some ranges of its text, one after the other. -/
inductive Lexer.PassesAll (rest : List Char) : Lexer → List (Swap Char) → List (Swap TokenKind) → Prop
  | done {l : Lexer} : PassesAll rest l [] []
  | cons {l m : Lexer} {swap : Swap Char} {swaps : List (Swap Char)} {kinds : Swap TokenKind}
      {more : List (Swap TokenKind)} (here : Exchangeable swap)
      (first : Passes swap (Swap.source swaps rest) l kinds m) (later : PassesAll rest m swaps more) :
      PassesAll rest l (swap :: swaps) (kinds :: more)

/-! ## Finding passages -/

/-- Whether so many steps lead a reader past a range and to the same state past the other one: the
tokens on the way, and the reader behind the range. -/
def Lexer.pass? (swap : Swap Char) (rest : List Char) (strides : Strides) (l : Lexer) :
    Option (Swap TokenKind × Lexer) := do
  let (front, j) ← step.steps strides.before l
  let near := j.cursor.rest.take (j.cursor.rest.length - (swap.old ++ rest).length)
  let (old, m) ← step.steps strides.old j
  let (new, m') ← step.steps strides.new (j.facing (near ++ (swap.new ++ rest)))
  if j.cursor.rest = near ++ (swap.old ++ rest) ∧ near ≠ [] ∧ m'.outlook = m.outlook ∧
      (m.finished = true → m.undecided = false) then
    some (⟨front.map Token.kind, old.map Token.kind, new.map Token.kind⟩, m)
  else none

/-- The tokens on the way past some ranges, if so many steps lead past each of them. -/
def Lexer.passAll? (rest : List Char) :
    Lexer → List (Swap Char) → List Strides → Option (List (Swap TokenKind))
  | _, [], _ => some []
  | _, _ :: _, [] => none
  | l, swap :: swaps, strides :: more =>
    if Exchangeable swap then do
      let (kinds, m) ← l.pass? swap (Swap.source swaps rest) strides
      let later ← passAll? rest m swaps more
      return kinds :: later
    else none

lemma Lexer.passes_of_pass? {swap : Swap Char} {rest : List Char} {strides : Strides} {l m : Lexer}
    {kinds : Swap TokenKind} (found : l.pass? swap rest strides = some (kinds, m)) :
    Passes swap rest l kinds m := by
  obtain ⟨⟨front, j⟩, way, found⟩ := Option.bind_eq_some_iff.mp found
  obtain ⟨⟨old, m₁⟩, past, found⟩ := Option.bind_eq_some_iff.mp found
  obtain ⟨⟨new, m'⟩, past', found⟩ := Option.bind_eq_some_iff.mp found
  obtain ⟨⟨here, before, same, live⟩, eq⟩ := Option.ite_none_right_eq_some.mp found
  cases eq
  exact .intro way here before past past' same live

lemma Lexer.passesAll_of_passAll? {rest : List Char} {swaps : List (Swap Char)} {strides : List Strides}
    {l : Lexer} {kinds : List (Swap TokenKind)} (found : l.passAll? rest swaps strides = some kinds) :
    l.PassesAll rest swaps kinds := by
  induction swaps generalizing strides l kinds with
  | nil =>
    cases found
    exact .done
  | cons swap swaps ih =>
    cases strides with
    | nil => cases found
    | cons strides more =>
      obtain ⟨here, found⟩ := Option.ite_none_right_eq_some.mp found
      obtain ⟨⟨first, m⟩, passes, found⟩ := Option.bind_eq_some_iff.mp found
      obtain ⟨later, all, eq⟩ := Option.bind_eq_some_iff.mp found
      cases eq
      exact .cons here (passes_of_pass? passes) (ih all)

/-! ## The fork at a range -/

/-- The fork at the first range of a text. -/
def Fork.ofSwaps (shift : Shift) (swaps : List (Swap Char)) (fits : ∀ swap ∈ swaps, Exchangeable swap)
    (rest : List Char) : Fork where
  toShift := shift
  far := Swap.fromOld swaps rest
  far' := Swap.fromNew swaps rest
  blank := by
    cases swaps with
    | nil => rfl
    | cons swap swaps => exact isBlankOrEnd_append (fits swap (List.mem_cons_self ..)).old
  blank' := by
    cases swaps with
    | nil => rfl
    | cons swap swaps => exact isBlankOrEnd_append (fits swap (List.mem_cons_self ..)).new

namespace Lexer

variable {l j k m m' : Lexer} {rest : List Char} {swap : Swap Char} {swaps : List (Swap Char)}
  {kinds : List (Swap TokenKind)}

lemma PassesAll.fits (passes : l.PassesAll rest swaps kinds) : ∀ swap ∈ swaps, Exchangeable swap := by
  induction passes with
  | done => simp
  | cons here _ _ ih => simpa using ⟨here, ih⟩

/-- A reader in front of a range has not passed the stretch before it. -/
lemma inside_ofSwaps {shift : Shift} {fits} {c : Cursor} {near : List Char}
    (stands : c.rest = near ++ (swap.old ++ Swap.source swaps rest)) (before : near ≠ []) :
    (Fork.ofSwaps shift (swap :: swaps) fits rest).Inside c := by
  have := List.length_pos_iff.mpr before
  right
  rw [stands, List.length_append]
  simp only [Fork.ofSwaps, Swap.fromOld]
  omega

lemma PassesAll.inside (passes : l.PassesAll rest swaps kinds) (shift : Shift) :
    (Fork.ofSwaps shift swaps passes.fits rest).Inside l.cursor := by
  cases passes with
  | done => exact .inl ⟨rfl, rfl⟩
  | cons here first later =>
    cases first with
    | intro way stands before => exact (inside_ofSwaps stands before).mono (steps_le way)

/-- Where a reader has other ranges ahead, it stands before the same stretch. -/
lemma twin_ofSwaps {shift : Shift} (fits : ∀ swap ∈ swaps, Exchangeable swap) (near : List Char)
    {c c' : Cursor} (stands : c.rest = near ++ Swap.source swaps rest)
    (stands' : c'.rest = near ++ Swap.result swaps rest)
    (index : c.index + shift.index' = c'.index + shift.index)
    (line : c.line + shift.line' = c'.line + shift.line) (column : c'.column = c.column) :
    (Fork.ofSwaps shift swaps fits rest).Twin c c' where
  rest := by
    refine ⟨near ++ Swap.stretch swaps rest, ?_, ?_, ?_⟩
    · rw [stands, Swap.source_eq, List.append_assoc]; rfl
    · rw [stands', Swap.result_eq, List.append_assoc]; rfl
    · cases swaps with
      | nil => exact .inl ⟨rfl, rfl⟩
      | cons swap swaps =>
        have mark := (fits swap (List.mem_cons_self ..)).mark
        right
        rw [List.getLast?_append, Swap.stretch, mark]
        rfl
  index := index
  line := line
  column := column

/-- Past a range and past the other one in its place, the readers are abreast again. -/
lemma exists_steps_past {shift : Shift} {fits} {j' : Lexer} {near : List Char} {new : List Token} {c : Nat}
    (abreast : (Fork.ofSwaps shift (swap :: swaps) fits rest).Abreast j j')
    (stands : j.cursor.rest = near ++ (swap.old ++ Swap.source swaps rest))
    (past : step.steps c (j.facing (near ++ (swap.new ++ Swap.source swaps rest))) = some (new, m'))
    (same : m'.outlook = m.outlook) (later : m.PassesAll rest swaps kinds) :
    ∃ shift' new' k, step.steps c j' = some (new', k) ∧ new'.map Token.kind = new.map Token.kind ∧
      (Fork.ofSwaps shift' swaps later.fits rest).Abreast m k := by
  obtain ⟨near', stands', there, -⟩ := abreast.cursor.rest
  obtain rfl : near = near' := by
    rw [stands] at stands'
    exact List.append_cancel_right stands'
  -- the other reader does what the first one would do with the other range
  have instead : (Fork.ofSwaps shift swaps later.fits rest).Abreast
      (j.facing (near ++ (swap.new ++ Swap.source swaps rest))) j' :=
    { abreast with
      cursor := twin_ofSwaps later.fits (near ++ swap.new) (by simp [facing])
        (by simpa [Fork.ofSwaps, Swap.fromNew] using there)
        abreast.cursor.index abreast.cursor.line abreast.cursor.column }
  obtain ⟨rest_eq, -⟩ := Outlook.mk.inj same
  have within : (Fork.ofSwaps shift swaps later.fits rest).Inside m'.cursor :=
    (later.inside shift).mono (Nat.le_of_eq (congrArg List.length rest_eq.symm))
  obtain ⟨new', k, goes, kinds, behind⟩ := instead.steps past within
  exact ⟨_, new', k, goes, kinds, behind.of_outlook_eq same⟩

/-- What a reader gives with enough steps is what its first steps give, and then what the reader behind
them gives with enough steps. -/
lemma exists_outputs_of_steps (ended : l.Ended) {n fuel : Nat} {given : List Token}
    (goes : step.steps n l = some (given, m)) (live : m.Live) (enough : l.potential ≤ fuel) :
    ∃ fuel', m.Ended ∧ m.potential ≤ fuel' ∧
      step.outputs fuel l = given ++ step.outputs fuel' m := by
  obtain ⟨spent, ended⟩ := steps_potential ended goes live
  exact ⟨fuel - n, ended, by omega, Machine.outputs_of_steps goes (by omega)⟩

/-- Readers abreast at the first of some ranges that the one of them passes: the tokens that they give
differ in those of the ranges only. -/
theorem PassesAll.outputs (passes : l.PassesAll rest swaps kinds) {fits} {shift : Shift} {l' : Lexer}
    (abreast : (Fork.ofSwaps shift swaps fits rest).Abreast l l') (ended : l.Ended)
    (ended' : l'.Ended) {fuel fuel' : Nat} (enough : l.potential ≤ fuel)
    (enough' : l'.potential ≤ fuel') :
    ∃ tail tail', tail <+: tail' ∧ (step.outputs fuel l).map Token.kind = Swap.source kinds tail ∧
      (step.outputs fuel' l').map Token.kind = Swap.result kinds tail' := by
  induction passes generalizing shift l' fuel fuel' with
  | done => exact ⟨_, _, abreast.outputs ⟨rfl, rfl⟩ ended ended' enough' fuel, rfl, rfl⟩
  | @cons l m swap swaps _ kinds here first later ih =>
    cases first with
    | intro way stands before past past' same live =>
    -- up to the range both readers give the same
    obtain ⟨front, j', way', kinds₁, next⟩ := abreast.steps way (inside_ofSwaps stands before)
    obtain ⟨_, new, k, past'', kinds₂, last⟩ := exists_steps_past next stands past' same later
    have live' : k.Live := by
      intro finished
      rw [last.undecided]
      exact live (last.finished ▸ finished)
    obtain ⟨_, ended, enough, gives⟩ :=
      exists_outputs_of_steps ended (Machine.steps_add way past) live enough
    obtain ⟨_, ended', enough', gives'⟩ :=
      exists_outputs_of_steps ended' (Machine.steps_add way' past'') live' enough'
    obtain ⟨tail, tail', shorter, eq, eq'⟩ := ih last ended ended' enough enough'
    refine ⟨tail, tail', shorter, ?_, ?_⟩
    · rw [gives, List.map_append, eq]
      simp [Swap.source]
    · rw [gives', List.map_append, eq']
      simp [Swap.result, kinds₁, kinds₂]

/-- A reader behind the start of the stream. -/
def begun (text : List Char) : Lexer := { Lexer.start text with queue := [], emitted := 1 }

lemma run_start (fuel : Nat) (text : List Char) :
    (run (fuel + 1) (.start text)).tokens = ⟨.streamStart, 0, 0⟩ :: step.outputs fuel (begun text) := by
  rw [run_tokens]
  rfl

lemma begun_ended (text : List Char) : (begun text).Ended := fun finished => by
  simp [begun, Lexer.start] at finished

lemma begun_potential (text : List Char) : (begun text).potential = 6 * text.length + 2 := by
  simp [potential, load, begun, Lexer.start, Cursor.start]

end Lexer

lemma tokens_eq {text : List Char} (proper : text.any isForbidden = false) :
    (tokens text).tokens =
      ⟨.streamStart, 0, 0⟩ :: Lexer.step.outputs (8 * text.length + 31) (.begun text) := by
  rw [tokens, proper, if_neg Bool.false_ne_true,
    show 8 * (text.length + 4) = 8 * text.length + 31 + 1 by omega, Lexer.run_start]

/-- Where the reader of a text passes some ranges of it, the tokens of the text and those of the text
with the other ranges in place differ in those of the ranges only. -/
theorem tokens_of_passes {swaps : List (Swap Char)} {rest : List Char} {kinds : List (Swap TokenKind)}
    (passes : (Lexer.begun (Swap.source swaps rest)).PassesAll rest swaps kinds)
    (proper : (Swap.source swaps rest).any isForbidden = false)
    (proper' : (Swap.result swaps rest).any isForbidden = false) :
    ∃ tail tail', tail <+: tail' ∧
      (tokens (Swap.source swaps rest)).tokens.map Token.kind =
        .streamStart :: Swap.source kinds tail ∧
      (tokens (Swap.result swaps rest)).tokens.map Token.kind =
        .streamStart :: Swap.result kinds tail' := by
  have abreast : (Fork.ofSwaps ⟨0, 0, 0, 0, 0, 0⟩ swaps passes.fits rest).Abreast
      (.begun (Swap.source swaps rest)) (.begun (Swap.result swaps rest)) :=
    { queue := rfl, emitted := rfl, indent := rfl, outer := rfl, keyAllowed := rfl, finished := rfl
      keys := .cons .none .nil
      cursor := Lexer.twin_ofSwaps passes.fits [] rfl rfl rfl rfl rfl }
  obtain ⟨tail, tail', shorter, eq, eq'⟩ := passes.outputs abreast (Lexer.begun_ended _)
    (Lexer.begun_ended _)
    (show _ ≤ 8 * (Swap.source swaps rest).length + 31 by rw [Lexer.begun_potential]; omega)
    (show _ ≤ 8 * (Swap.result swaps rest).length + 31 by rw [Lexer.begun_potential]; omega)
  refine ⟨tail, tail', shorter, ?_, ?_⟩
  · rw [tokens_eq proper, List.map_cons, eq]
  · rw [tokens_eq proper', List.map_cons, eq']

end ChartLift.Yaml.Content
