import ChartLift.Path.Basic
import ChartLift.Text.Blank
import ChartLift.Text.Quoted

/-!
# Reading field paths

A path is read from steps `.name`, `[position]` and `['name']` or `["name"]` behind an optional
`$`, all of it between optional braces. Wildcards, slices, filters and recursive descent are
refused: a path addresses exactly one place.
-/

namespace ChartLift

/-- What keeps a text from being a path. -/
inductive PathFault where
  /-- An opening brace without the closing one. -/
  | unclosedBrace
  /-- Two dots in a row. -/
  | recursiveDescent
  /-- A blank or a quote inside a name behind a dot. -/
  | strayInName (c : Char)
  /-- A dot without a name. -/
  | emptyName
  /-- A star in place of a name. -/
  | wildcard
  /-- A step that begins with neither a dot nor a bracket. -/
  | noStep (c : Char)
  /-- A quoted name that does not end. -/
  | unclosedQuote
  /-- A backslash at the end of the text. -/
  | danglingEscape
  /-- Something else than a closing bracket after a quoted name. -/
  | quoteNotLast
  /-- A bracket that does not close. -/
  | unclosedBracket
  /-- A star, slice, filter or list between brackets. -/
  | selector (body : String)
  /-- No integer of 64 bits between brackets. -/
  | badIndex (body : String)
  deriving DecidableEq, Repr

/-- The reason in words. -/
def PathFault.message : PathFault → String
  | .unclosedBrace => "unterminated '\x7b'"
  | .recursiveDescent => "recursive descent is not supported"
  | .strayInName c => "unexpected character " ++ Text.quotedChar c ++ " in field name"
  | .emptyName => "empty field name"
  | .wildcard => "wildcards are not supported"
  | .noStep c => "expected '.' or '[' but found " ++ Text.quotedChar c
  | .unclosedQuote => "unterminated quoted field"
  | .danglingEscape => "dangling escape"
  | .quoteNotLast => "expected ']' after quoted field"
  | .unclosedBracket => "unterminated '['"
  | .selector body => "unsupported selector [" ++ body ++ "]"
  | .badIndex body => "invalid index [" ++ body ++ "]"

namespace Path

/-- Characters that a name behind a dot runs up to. -/
def endsName (c : Char) : Bool :=
  c == '.' || c == '[' || c == ']'

/-- Characters that a name behind a dot may not hold. -/
def isStray (c : Char) : Bool :=
  Text.isBlank c || c == '\'' || c == '"'

/-- The name behind a dot. -/
def dottedName (name : List Char) : Except PathFault Segment :=
  match name.find? isStray with
  | some c => .error (.strayInName c)
  | none =>
    if name.isEmpty then .error .emptyName
    else if name = ['*'] then .error .wildcard
    else .ok (.field (String.ofList name))

/-- The rest of a quoted name and what follows its quote; a backslash takes the next character as
it is. -/
def quotedName (quote : Char) : List Char → Except PathFault (List Char × List Char)
  | [] => .error .unclosedQuote
  | ['\\'] => .error .danglingEscape
  | '\\' :: c :: rest => (quotedName quote rest).map fun (name, after) => (c :: name, after)
  | c :: rest =>
    if c = quote then .ok ([], rest)
    else (quotedName quote rest).map fun (name, after) => (c :: name, after)

/-- The position between brackets, blanks around it aside. -/
def bracketIndex (body : List Char) : Except PathFault Segment :=
  if body = ['*'] ∨ ':' ∈ body ∨ body.head? = some '?' ∨ ',' ∈ body then
    .error (.selector (String.ofList body))
  else
    match Text.integer64? body with
    | some position => .ok (.index position)
    | none => .error (.badIndex (String.ofList body))

/-- The step behind an opening bracket and what follows its closing one. -/
def bracketStep : List Char → Except PathFault (Segment × List Char)
  | [] => .error .unclosedBracket
  | first :: rest =>
    if first = '\'' ∨ first = '"' then
      match quotedName first rest with
      | .error fault => .error fault
      | .ok (name, ']' :: after) => .ok (.field (String.ofList name), after)
      | .ok _ => .error .quoteNotLast
    else
      match (first :: rest).dropWhile (· != ']') with
      | [] => .error .unclosedBracket
      | _ :: after =>
        (bracketIndex (Text.trim ((first :: rest).takeWhile (· != ']')))).map
          fun segment => (segment, after)

/-- What follows a quoted name is shorter than the text it was read from. -/
theorem quotedName_length {quote : Char} {text name after : List Char}
    (h : quotedName quote text = .ok (name, after)) : after.length < text.length := by
  fun_induction quotedName quote text generalizing name with
  | case1 => simp at h
  | case2 => simp at h
  | case3 c rest ih =>
    cases hq : quotedName quote rest with
    | error fault => simp [hq, Except.map] at h
    | ok pair =>
      simp only [hq, Except.map, Except.ok.injEq, Prod.mk.injEq] at h
      have shorter := @ih pair.1 (by rw [hq, ← h.2])
      simp only [List.length_cons]; omega
  | case4 =>
    simp only [Except.ok.injEq, Prod.mk.injEq] at h
    simp [← h.2]
  | case5 c rest _ _ _ ih =>
    cases hq : quotedName quote rest with
    | error fault => simp [hq, Except.map] at h
    | ok pair =>
      simp only [hq, Except.map, Except.ok.injEq, Prod.mk.injEq] at h
      have shorter := @ih pair.1 (by rw [hq, ← h.2])
      simp only [List.length_cons]; omega

/-- What follows a bracketed step is shorter than the text it was read from. -/
theorem bracketStep_length {text after : List Char} {segment : Segment}
    (h : bracketStep text = .ok (segment, after)) : after.length < text.length := by
  unfold bracketStep at h
  split at h
  · simp at h
  · rename_i first rest
    split at h
    · split at h
      · simp at h
      · rename_i name tail hq
        simp only [Except.ok.injEq, Prod.mk.injEq] at h
        have := quotedName_length hq
        simp only [List.length_cons] at this ⊢
        rw [← h.2]; omega
      · simp at h
    · split at h
      · simp at h
      · rename_i bracket tail hd
        cases hb : bracketIndex (Text.trim ((first :: rest).takeWhile (· != ']'))) with
        | error fault => rw [hb] at h; simp [Except.map] at h
        | ok found =>
          rw [hb] at h
          simp only [Except.map, Except.ok.injEq, Prod.mk.injEq] at h
          have : (bracket :: tail).length ≤ (first :: rest).length := by
            rw [← hd]; exact (List.dropWhile_sublist _).length_le
          simp only [List.length_cons] at this ⊢
          rw [← h.2]; omega

/-- The steps that a text lists. -/
def readSteps : List Char → Except PathFault (List Segment)
  | [] => .ok []
  | '.' :: rest =>
    if rest.head? = some '.' then .error .recursiveDescent
    else
      match dottedName (rest.takeWhile (!endsName ·)) with
      | .error fault => .error fault
      | .ok segment => (readSteps (rest.dropWhile (!endsName ·))).map (segment :: ·)
  | '[' :: rest =>
    match _h : bracketStep rest with
    | .error fault => .error fault
    | .ok (segment, after) => (readSteps after).map (segment :: ·)
  | c :: _ => .error (.noStep c)
termination_by text => text.length
decreasing_by
  · have := (List.dropWhile_sublist (l := rest) (!endsName ·)).length_le
    simp only [List.length_cons]; omega
  · have := bracketStep_length ‹_›
    simp only [List.length_cons]; omega

/-- A text without one leading brace and the closing one that it requires. -/
def withoutBraces : List Char → Except PathFault (List Char)
  | '\x7b' :: rest =>
    if rest.getLast? = some '\x7d' then .ok (Text.trim rest.dropLast) else .error .unclosedBrace
  | text => .ok text

/-- A text without the dollar sign that may stand for the root. -/
def withoutDollar : List Char → List Char
  | '$' :: rest => rest
  | text => text

/-- The steps of a path without braces and dollar sign; a dot alone is the root. -/
def readBare (text : List Char) : Except PathFault Path :=
  if text = ['.'] then .ok root else (readSteps text).map Path.mk

/-- Reads a path. -/
def read (text : String) : Except PathFault Path :=
  (withoutBraces (Text.trim text.toList)).bind fun bare => readBare (withoutDollar bare)

end Path

end ChartLift
