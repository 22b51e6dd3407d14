/-!
# Texts and keys of TOML

Quoted texts on one line and on several, and keys. Every reader returns what it read and the
characters behind it.
-/

namespace ChartLift.Toml

/-- What a reader makes of the characters in front of it. -/
abbrev Reader (α : Type) := List Char → Option (α × List Char)

/-- Blanks inside a line. -/
def isBlank (c : Char) : Bool := c == ' ' || c == '\t'

/-- What follows blanks. -/
def skipBlanks (text : List Char) : List Char := text.dropWhile isBlank

/-- What follows one line end. -/
def afterLineEnd? : List Char → Option (List Char)
  | '\n' :: rest => some rest
  | '\r' :: '\n' :: rest => some rest
  | _ => none

/-- Characters that may stand in comments and texts: no controls but the tab. -/
def isTextChar (c : Char) : Bool :=
  c == '\t' || (' ' ≤ c && c ≤ '~') || '\x80' ≤ c

/-- What follows a comment, up to the end of its line. -/
def afterComment? : List Char → Option (List Char)
  | '#' :: rest =>
    let behind := rest.dropWhile isTextChar
    if behind.isEmpty || (afterLineEnd? behind).isSome then some behind else none
  | text => some text

/-- The value of a hexadecimal digit. -/
def hexDigit? (c : Char) : Option Nat :=
  if c.isDigit then some (c.toNat - 48)
  else if 'a' ≤ c ∧ c ≤ 'f' then some (c.toNat - 87)
  else if 'A' ≤ c ∧ c ≤ 'F' then some (c.toNat - 55)
  else none

/-- The character of a number in hexadecimal. -/
def hexChar? (digits : List Char) : Option Char :=
  let number := digits.foldl (fun seen c => match seen, hexDigit? c with
    | some n, some d => some (n * 16 + d)
    | _, _ => none) (some 0)
  number.bind fun n => if n.isValidChar then some (Char.ofNat n) else none

/-- The character of an escape, behind its backslash. -/
def escaped? : Reader Char
  | 'b' :: rest => some ('\x08', rest)
  | 't' :: rest => some ('\t', rest)
  | 'n' :: rest => some ('\n', rest)
  | 'f' :: rest => some ('\x0c', rest)
  | 'r' :: rest => some ('\r', rest)
  | '"' :: rest => some ('"', rest)
  | '\\' :: rest => some ('\\', rest)
  | 'u' :: rest =>
    if rest.length < 4 then none else (hexChar? (rest.take 4)).map fun c => (c, rest.drop 4)
  | 'U' :: rest =>
    if rest.length < 8 then none else (hexChar? (rest.take 8)).map fun c => (c, rest.drop 8)
  | _ => none

/-- Blanks and line ends, for at most `fuel` of them. -/
def skipSpace : Nat → List Char → List Char
  | 0, text => text
  | fuel + 1, text =>
    match afterLineEnd? text with
    | some rest => skipSpace fuel rest
    | none =>
      match text with
      | c :: rest => if isBlank c then skipSpace fuel rest else text
      | [] => []

/-- What follows a backslash that ends its line: the line end and all space behind it are left out.
-/
def afterJoin? (text : List Char) : Option (List Char) :=
  (afterLineEnd? (skipBlanks text)).map fun rest => skipSpace rest.length rest

/-- The rest of a text on one line behind its opening quote. Escapes count in double quotes only. -/
def lineText (quote : Char) : Nat → Reader (List Char)
  | 0, _ => none
  | fuel + 1, text =>
    match text with
    | [] => none
    | c :: rest =>
      if c = quote then some ([], rest)
      else if c = '\\' ∧ quote = '"' then
        match escaped? rest with
        | none => none
        | some (e, rest) => (lineText quote fuel rest).map fun (more, rest) => (e :: more, rest)
      else if isTextChar c then
        (lineText quote fuel rest).map fun (more, rest) => (c :: more, rest)
      else none

/-- The rest of a text on several lines. It ends at three quotes; one or two more before them belong
to the text. -/
def blockText (quote : Char) : Nat → Reader (List Char)
  | 0, _ => none
  | fuel + 1, text =>
    match text with
    | [] => none
    | c :: rest =>
      if c = quote then
        let run := (text.takeWhile (· == quote)).length
        if run < 3 then (blockText quote fuel rest).map fun (more, rest) => (c :: more, rest)
        else if run < 6 then some (List.replicate (run - 3) quote, text.drop run)
        else none
      else if c = '\\' ∧ quote = '"' then
        match afterJoin? rest with
        | some rest => blockText quote fuel rest
        | none =>
          match escaped? rest with
          | none => none
          | some (e, rest) => (blockText quote fuel rest).map fun (more, rest) => (e :: more, rest)
      else
        match afterLineEnd? text with
        | some rest => (blockText quote fuel rest).map fun (more, rest) => ('\n' :: more, rest)
        | none =>
          if isTextChar c then (blockText quote fuel rest).map fun (more, rest) => (c :: more, rest)
          else none

/-- A quoted text on one line. -/
def quotedLine : Reader String
  | c :: rest =>
    if c = '"' ∨ c = '\'' then
      (lineText c (rest.length + 1) rest).map fun (text, rest) => (String.ofList text, rest)
    else none
  | [] => none

/-- A quoted text. A line end right behind three opening quotes does not count. -/
def quotedText : Reader String
  | a :: b :: c :: rest =>
    if a = b ∧ b = c ∧ (a = '"' ∨ a = '\'') then
      let rest := (afterLineEnd? rest).getD rest
      (blockText a (rest.length + 1) rest).map fun (text, rest) => (String.ofList text, rest)
    else quotedLine (a :: b :: c :: rest)
  | text => quotedLine text

/-- Characters of a key without quotes. -/
def isBareChar (c : Char) : Bool := c.isAlphanum || c == '_' || c == '-'

/-- One part of a key. -/
def keyPart : Reader String
  | [] => none
  | c :: rest =>
    if c = '"' ∨ c = '\'' then quotedLine (c :: rest)
    else
      let name := (c :: rest).takeWhile isBareChar
      if name.isEmpty then none else some (String.ofList name, (c :: rest).dropWhile isBareChar)

/-- How deep keys and values may nest. -/
def maximalDepth : Nat := 79

/-- A key of at most `fuel` parts, with dots between them and blanks around each. -/
def keyParts : Nat → Reader (List String)
  | 0, _ => none
  | fuel + 1, text =>
    match keyPart (skipBlanks text) with
    | none => none
    | some (part, rest) =>
      match skipBlanks rest with
      | '.' :: rest => (keyParts fuel rest).map fun (parts, rest) => (part :: parts, rest)
      | rest => some ([part], rest)

/-- A key, as its parts. -/
def key (text : List Char) : Option (List String × List Char) := keyParts maximalDepth text

end ChartLift.Toml
