import ChartLift.TextPattern.Basic
import ChartLift.Text.Integer

/-!
# Reading text patterns

Alternatives are separated by bars, grouped by parentheses and repeated by the marks behind them. A
mark with nothing before it, and a bracket without its partner, are refused.
-/

namespace ChartLift.TextPattern

/-- One character. -/
def literal (c : Char) : TextPattern := .one [.range c c]

/-- The set that a letter behind a backslash stands for. -/
def namedSet? : Char → Option CharSet
  | 'd' => some .digit
  | 's' => some .blank
  | 'w' => some .word
  | 'D' => some (.outside [.digit])
  | 'S' => some (.outside [.blank])
  | 'W' => some (.outside [.word])
  | _ => none

/-- The character that stands for itself, or for a control, behind a backslash. -/
def escaped? (c : Char) : Option Char :=
  match c with
  | 'n' => some '\n'
  | 't' => some '\t'
  | 'r' => some '\r'
  | 'a' => some '\x07'
  | 'f' => some '\x0c'
  | 'v' => some '\x0b'
  | c => if c.isAlphanum || c == '<' || c == '>' then none else some c

/-- The pattern behind a backslash. -/
def escapedPattern? (c : Char) : Option TextPattern :=
  match c with
  | 'b' => some (.border true)
  | 'B' => some (.border false)
  | 'A' => some .start
  | 'z' => some .finish
  | c =>
    match namedSet? c with
    | some set => some (.one [set])
    | none => (escaped? c).map literal

/-- Words for sets between colons. -/
def wordSets : List (String × List CharSet) :=
  [("alpha", [.range 'a' 'z', .range 'A' 'Z']), ("digit", [.range '0' '9']),
    ("alnum", [.range 'a' 'z', .range 'A' 'Z', .range '0' '9']), ("lower", [.range 'a' 'z']),
    ("upper", [.range 'A' 'Z']), ("space", [.range '\t' '\r', .range ' ' ' ']),
    ("blank", [.range '\t' '\t', .range ' ' ' ']), ("punct", [.range '!' '/', .range ':' '@',
      .range '[' '\x60', .range '\x7b' '~']), ("word", [.range 'a' 'z', .range 'A' 'Z', .range '0' '9',
      .range '_' '_'])]

/-- What an item of a set begins with: a character, or sets as they are. -/
def setItem? : List Char → Option ((Char ⊕ List CharSet) × List Char)
  | '\\' :: c :: rest =>
    match namedSet? c with
    | some set => some (.inr [set], rest)
    | none => (escaped? c).map fun c => (.inl c, rest)
  | '[' :: ':' :: rest =>
    let word := rest.takeWhile Char.isAlpha
    match wordSets.lookup (String.ofList word), rest.drop word.length with
    | some sets, ':' :: ']' :: rest => some (.inr sets, rest)
    | _, _ => none
  | '\\' :: [] => none
  | '[' :: _ => none
  | c :: rest => some (.inl c, rest)
  | [] => none

/-- The sets up to a closing bracket, at which the first character does not end them. -/
def setsUntilBracket? : Nat → Bool → List Char → Option (List CharSet × List Char)
  | 0, _, _ => none
  | _ + 1, false, ']' :: rest => some ([], rest)
  | fuel + 1, _, text => do
    let (item, rest) ← setItem? text
    match item, rest with
    | .inr sets, rest =>
      let (others, rest) ← setsUntilBracket? fuel false rest
      return (sets ++ others, rest)
    | .inl low, '-' :: next :: rest =>
      if next = ']' then
        return ([.range low low, .range '-' '-'], rest)
      else
        match ← setItem? (next :: rest) with
        | (.inl high, rest) =>
          if high < low then none
          else
            let (others, rest) ← setsUntilBracket? fuel false rest
            return (.range low high :: others, rest)
        | _ => none
    | .inl c, rest =>
      let (others, rest) ← setsUntilBracket? fuel false rest
      return (.range c c :: others, rest)

/-- The set behind an opening bracket. -/
def bracket? (text : List Char) : Option (TextPattern × List Char) :=
  match text with
  | '^' :: rest =>
    (setsUntilBracket? (text.length + 1) true rest).map fun (sets, rest) => (.one [.outside sets], rest)
  | rest => (setsUntilBracket? (text.length + 1) true rest).map fun (sets, rest) => (.one sets, rest)

/-- Numbers of repetitions behind an opening brace. -/
def bounds? (text : List Char) : Option (Nat × Option Nat × List Char) := do
  let inside := text.takeWhile (· != '\x7d')
  match text.drop inside.length with
  | [] => none
  | _ :: rest =>
    match inside.span (· != ',') with
    | (least, []) => do
      let n ← Text.natural? least
      return (n, some n, rest)
    | (least, [_]) => return (← Text.natural? least, none, rest)
    | (least, _ :: most) => do
      let least ← Text.natural? least
      let most ← Text.natural? most
      if most < least then none else return (least, some most, rest)

/-- The least and the greatest number that a mark of repetition gives, and the text behind it. -/
def mark? : List Char → Option (Option (Nat × Option Nat × List Char))
  | '*' :: rest => some (some (0, none, rest))
  | '+' :: rest => some (some (1, none, rest))
  | '?' :: rest => some (some (0, some 1, rest))
  | '\x7b' :: rest => (bounds? rest).map some
  | _ => some none

/-- A pattern with the marks behind it, of which each may be followed by a question mark. -/
def marked? : Nat → TextPattern → List Char → Option (TextPattern × List Char)
  | 0, _, _ => none
  | fuel + 1, pattern, text =>
    match mark? text with
    | none => none
    | some none => some (pattern, text)
    | some (some (least, most, rest)) =>
      let rest := match rest with
        | '?' :: rest => rest
        | rest => rest
      marked? fuel (.repeated pattern least most) rest

/-- The text of a group behind its name, where it has one. -/
def insideGroup : List Char → List Char
  | '?' :: ':' :: rest => rest
  | '?' :: 'P' :: '<' :: rest => (rest.dropWhile (· != '>')).drop 1
  | '?' :: '<' :: rest => (rest.dropWhile (· != '>')).drop 1
  | text => text

mutual

/-- The alternatives up to a closing parenthesis or the end. -/
def alternatives? : Nat → List Char → Option (List (List TextPattern) × List Char)
  | 0, _ => none
  | fuel + 1, text => do
    let (patterns, rest) ← patterns? fuel text
    match rest with
    | '|' :: rest =>
      let (others, rest) ← alternatives? fuel rest
      return (patterns :: others, rest)
    | rest => return ([patterns], rest)

/-- The patterns of one alternative. -/
def patterns? : Nat → List Char → Option (List TextPattern × List Char)
  | 0, _ => none
  | fuel + 1, text =>
    match text with
    | [] | '|' :: _ | ')' :: _ => some ([], text)
    | text => do
      let (pattern, rest) ← pattern? fuel text
      let (pattern, rest) ← marked? fuel pattern rest
      let (others, rest) ← patterns? fuel rest
      return (pattern :: others, rest)

/-- The pattern that a text begins with, without the marks behind it. -/
def pattern? : Nat → List Char → Option (TextPattern × List Char)
  | 0, _ => none
  | fuel + 1, text =>
    match text with
    | '(' :: rest => do
      let (alternatives, rest) ← alternatives? fuel (insideGroup rest)
      match rest with
      | ')' :: rest => return (.choice alternatives, rest)
      | _ => none
    | '[' :: rest => bracket? rest
    | '\\' :: c :: rest => (escapedPattern? c).map fun pattern => (pattern, rest)
    | '.' :: rest => some (.one [.outside [.range '\n' '\n']], rest)
    | '^' :: rest => some (.start, rest)
    | '$' :: rest => some (.finish, rest)
    | '*' :: _ | '+' :: _ | '?' :: _ | '\x7b' :: _ | '\\' :: [] => none
    | c :: rest => some (literal c, rest)
    | [] => none

end

/-- The pattern that a text writes. -/
def read? (text : List Char) : Option TextPattern :=
  match alternatives? (3 * text.length + 3) text with
  | some (alternatives, []) => some (.choice alternatives)
  | _ => none

end ChartLift.TextPattern
