/-!
# Glob patterns

Patterns for names of files. Stars and question marks match slashes too; only two stars that stand
as a whole part of the pattern keep to the bounds of directories.
-/

namespace ChartLift

/-- A part of a pattern. -/
inductive GlobToken where
  | literal (c : Char)
  /-- Any one byte. -/
  | one
  /-- Any bytes. -/
  | many
  /-- Any directories in front. -/
  | leading
  /-- Anything below a directory. -/
  | trailing
  /-- Any directories in between. -/
  | between
  /-- One byte within ranges, or outside of all of them. -/
  | oneOf (negated : Bool) (ranges : List (Char × Char))
  | choice (alternatives : List (List GlobToken))
  deriving Repr, Inhabited

/-- What is wrong with a pattern. -/
inductive GlobFault where
  | unclosedClass
  | invalidRange (low high : Char)
  | unopenedChoice
  | unclosedChoice
  | danglingEscape
  deriving DecidableEq, Repr

/-- The fault in words. -/
def GlobFault.message : GlobFault → String
  | unclosedClass => "unclosed character class; missing ']'"
  | invalidRange low high =>
    "invalid range; '" ++ low.toString ++ "' > '" ++ high.toString ++ "'"
  | unopenedChoice => "unopened alternate group; missing '\x7b' (maybe escape '\x7d' with '[\x7d]'?)"
  | unclosedChoice => "unclosed alternate group; missing '\x7d' (maybe escape '\x7b' with '[\x7b]'?)"
  | danglingEscape => "dangling '\\'"

/-- A pattern. -/
structure Glob where
  source : String
  tokens : List GlobToken
  deriving Repr, Inhabited

namespace Glob

/-- A choice that is still open: the tokens before it, and its finished alternatives, each with the
last one first. -/
structure OpenChoice where
  before : List GlobToken
  finished : List (List GlobToken)

/-- What has been read of a pattern: the tokens of the alternative at hand, the last one first, and
the choices around it, the innermost first. -/
structure Reading where
  tokens : List GlobToken
  choices : List OpenChoice

namespace Reading

/-- A reading with one more token. -/
def push (r : Reading) (token : GlobToken) : Reading := { r with tokens := token :: r.tokens }

/-- Opens a choice. -/
def openChoice (r : Reading) : Reading := ⟨[], ⟨r.tokens, []⟩ :: r.choices⟩

/-- Goes on to the next alternative; outside of choices a comma stands for itself. -/
def comma (r : Reading) : Reading :=
  match r.choices with
  | [] => r.push (.literal ',')
  | choice :: outer => ⟨[], { choice with finished := r.tokens.reverse :: choice.finished } :: outer⟩

/-- Closes the innermost choice. -/
def closeChoice (r : Reading) : Except GlobFault Reading :=
  match r.choices with
  | [] => .error .unopenedChoice
  | choice :: outer =>
    let alternatives := (r.tokens.reverse :: choice.finished).reverse
    .ok ⟨.choice alternatives :: choice.before, outer⟩

/-- Two stars that stand for a whole part behind a slash take its place; several such parts are one.
-/
def wholePart (r : Reading) (token : GlobToken) : Reading :=
  match r.tokens with
  | .leading :: _ => r
  | .trailing :: _ => r
  | _ :: rest => { r with tokens := token :: rest }
  | [] => r

/-- Two stars behind a character, with what follows them. -/
def twoStars (r : Reading) (previous : Option Char) (rest : List Char) : Reading × List Char :=
  let plain := (r.push .many).push .many
  if r.tokens.isEmpty then
    match rest with
    | [] => (r.push .leading, [])
    | '/' :: rest => (r.push .leading, rest)
    | rest => (plain, rest)
  else
    let inChoice := !r.choices.isEmpty
    let bounded := previous == some '/' || (inChoice && (previous == some ',' || previous == some '\x7b'))
    if !bounded then (plain, rest)
    else
      match rest with
      | [] => (r.wholePart .trailing, [])
      | '/' :: rest => (r.wholePart .between, rest)
      | c :: _ =>
        if inChoice && (c == ',' || c == '\x7d') then (r.wholePart .trailing, rest) else (plain, rest)

/-- What follows two stars is not longer than what stood behind them. -/
theorem twoStars_length (r : Reading) (previous : Option Char) (rest : List Char) :
    (r.twoStars previous rest).2.length ≤ rest.length := by
  simp only [twoStars]
  (repeat' split) <;> simp

end Reading

/-- The rest of a class behind its opening bracket: its ranges, the last one first, while `first`
tells that nothing has been read and `dash` that a range is begun. -/
def classRest (ranges : List (Char × Char)) (first dash : Bool) :
    List Char → Except GlobFault (List (Char × Char) × List Char)
  | [] => .error .unclosedClass
  | c :: rest =>
    let extend (add : Char) : Except GlobFault (List (Char × Char)) :=
      match ranges with
      | [] => .ok [(add, add)]
      | (low, _) :: more =>
        if add < low then .error (.invalidRange low add) else .ok ((low, add) :: more)
    if c = ']' ∧ !first then .ok (if dash then ('-', '-') :: ranges else ranges, rest)
    else if c = ']' then classRest ((c, c) :: ranges) false dash rest
    else if c = '-' ∧ !first ∧ !dash then classRest ranges false true rest
    else if dash then
      match extend c with
      | .error fault => .error fault
      | .ok ranges => classRest ranges false false rest
    else classRest ((c, c) :: ranges) false false rest

/-- What follows a class is shorter than what stood behind its bracket. -/
theorem classRest_length {ranges : List (Char × Char)} {first dash : Bool} {text : List Char}
    {found : List (Char × Char)} {rest : List Char}
    (h : classRest ranges first dash text = .ok (found, rest)) : rest.length < text.length := by
  fun_induction classRest ranges first dash text generalizing found rest <;> simp_all <;> grind

/-- A class behind its opening bracket. -/
def readClass (text : List Char) : Except GlobFault (GlobToken × List Char) :=
  let negated := text.head? == some '!' || text.head? == some '^'
  match classRest [] true false (if negated then text.drop 1 else text) with
  | .error fault => .error fault
  | .ok (ranges, rest) => .ok (.oneOf negated ranges.reverse, rest)

/-- What follows a class is shorter than what stood behind its bracket. -/
theorem readClass_length {text rest : List Char} {token : GlobToken}
    (h : readClass text = .ok (token, rest)) : rest.length < text.length := by
  simp only [readClass] at h
  split at h
  · simp at h
  · rename_i found behind heq
    have := classRest_length heq
    simp only [Except.ok.injEq, Prod.mk.injEq] at h
    obtain ⟨-, rfl⟩ := h
    split at this
    · simp only [List.length_drop] at this; omega
    · exact this

/-- Reads on, behind a character. -/
def readOn (r : Reading) (previous : Option Char) (text : List Char) : Except GlobFault Reading :=
  match text with
  | [] => .ok r
  | '*' :: '*' :: rest =>
    have := r.twoStars_length previous rest
    let last := if (r.twoStars previous rest).2.length < rest.length then '/' else '*'
    readOn (r.twoStars previous rest).1 (some last) (r.twoStars previous rest).2
  | '*' :: rest => readOn (r.push .many) (some '*') rest
  | '?' :: rest => readOn (r.push .one) (some '?') rest
  | '[' :: rest =>
    match _h : readClass rest with
    | .error fault => .error fault
    | .ok (token, behind) => readOn (r.push token) (some ']') behind
  | '\x7b' :: rest => readOn r.openChoice (some '\x7b') rest
  | '\x7d' :: rest =>
    match r.closeChoice with
    | .error fault => .error fault
    | .ok r => readOn r (some '\x7d') rest
  | ',' :: rest => readOn r.comma (some ',') rest
  | ['\\'] => .error .danglingEscape
  | '\\' :: c :: rest => readOn (r.push (.literal c)) (some c) rest
  | c :: rest => readOn (r.push (.literal c)) (some c) rest
termination_by text.length
decreasing_by
  all_goals simp_wf
  all_goals try have shorter := readClass_length _h
  all_goals omega

/-- Reads a pattern. -/
def read (source : String) : Except GlobFault Glob :=
  match readOn ⟨[], []⟩ none source.toList with
  | .error fault => .error fault
  | .ok r => if r.choices.isEmpty then .ok ⟨source, r.tokens.reverse⟩ else .error .unclosedChoice

end Glob

end ChartLift
