import ChartLift.Number.Double
import ChartLift.Text.Integer
import ChartLift.Text.Split
import ChartLift.Toml.Text

/-!
# Values of TOML

Texts, numbers, flags and moments, arrays and tables between brackets. Tables grow entry by entry;
what has been written as a whole cannot be added to.
-/

namespace ChartLift.Toml

/-- A value. -/
inductive Term where
  | text (s : String)
  | integer (i : Int)
  /-- A floating-point number, as it is written. -/
  | float (written : String)
  | flag (b : Bool)
  /-- A date, a time or both, as it is written. -/
  | moment (written : String)
  | array (items : List Term)
  | table (entries : List (String × Term))
  deriving Repr, Inhabited

/-! ## Tables that grow -/

/-- How a table came about. -/
inductive Origin where
  /-- By a header of its own, or as the document itself. -/
  | header
  /-- By the header of a table inside it. -/
  | implied
  /-- By a key of several parts. -/
  | dotted
  deriving DecidableEq, Repr

/-- What stands under a key of a table that grows. -/
inductive Item where
  | leaf (term : Term)
  | table (origin : Origin) (entries : List (String × Item))
  /-- An array of tables, each of which has a header; the last one grows. -/
  | tables (all : List (List (String × Item)))
  deriving Inhabited

/-- The entries of a table that grows, in the order of their keys. -/
abbrev Items := List (String × Item)

/-- Entries with what stands under a key replaced, or added behind the others. -/
def Items.put (key : String) (item : Item) : Items → Items
  | [] => [(key, item)]
  | (k, i) :: rest => if k = key then (key, item) :: rest else (k, i) :: Items.put key item rest

/-- Changes the table at a path. Tables on the way that are missing come about as `missing`; with
`closed`, those with a header of their own may not be entered. -/
def changeAt (missing : Origin) (closed : Bool) (change : Origin → Items → Option Items) :
    List String → Origin → Items → Option Items
  | [], origin, entries => change origin entries
  | key :: path, _, entries =>
    match entries.lookup key with
    | none =>
      (changeAt missing closed change path missing []).map fun inner =>
        entries.put key (.table missing inner)
    | some (.leaf _) => none
    | some (.table origin inner) =>
      if closed && origin == .header then none
      else
        (changeAt missing closed change path origin inner).map fun inner =>
          entries.put key (.table origin inner)
    | some (.tables all) =>
      match all.getLast? with
      | none => none
      | some last =>
        (changeAt missing closed change path .header last).map fun inner =>
          entries.put key (.tables (all.dropLast ++ [inner]))

/-- Entries with one more, under a key of one or more parts. The key must be new, and a table that
it enters by a dot must have come about by dots. -/
def addEntry (key : List String) (term : Term) (entries : Items) : Option Items :=
  match key.getLast? with
  | none => none
  | some last =>
    let path := key.dropLast
    let change (origin : Origin) (entries : Items) : Option Items :=
      if (origin == .dotted) == path.isEmpty then none
      else if (entries.lookup last).isSome then none
      else some (entries.put last (.leaf term))
    changeAt .dotted true change path .header entries

mutual

/-- What stands under a key, as a value. -/
def Item.term : Item → Term
  | .leaf term => term
  | .table _ entries => .table (terms entries)
  | .tables all => .array (tableTerms all)

/-- The entries of a table as values. -/
def terms : List (String × Item) → List (String × Term)
  | [] => []
  | (key, item) :: rest => (key, item.term) :: terms rest

/-- The tables of an array as values. -/
def tableTerms : List (List (String × Item)) → List Term
  | [] => []
  | entries :: rest => .table (terms entries) :: tableTerms rest

end

/-! ## Numbers, flags and moments -/

/-- Characters of a value without quotes and brackets. -/
def isTokenChar (c : Char) : Bool :=
  c.isAlphanum || c == '+' || c == '-' || c == '_' || c == '.' || c == ':'

/-- Digits of a kind with single underscores between them, without the underscores. -/
def digits? (isDigit : Char → Bool) : List Char → Option (List Char)
  | [] => none
  | c :: rest =>
    if isDigit c then
      match rest with
      | [] => some [c]
      | '_' :: rest => (digits? isDigit rest).map (c :: ·)
      | rest => (digits? isDigit rest).map (c :: ·)
    else none

/-- Decimal digits without leading zeros. -/
def plainDigits? (text : List Char) : Option (List Char) :=
  (digits? Char.isDigit text).filter fun digits => digits.length == 1 || digits.head? != some '0'

/-- A sign, where there is one, and the rest. -/
def cutSign : List Char → List Char × List Char
  | '+' :: rest => ([], rest)
  | '-' :: rest => (['-'], rest)
  | text => ([], text)

/-- The number that digits write in a base. -/
def inBase (base : Nat) (digits : List Char) : Nat :=
  digits.foldl (fun n c => n * base + (hexDigit? c).getD 0) 0

/-- The digits of a base, underscores included. -/
def basedNumber? (base : Nat) (text : List Char) : Option Int :=
  (digits? (fun c => (hexDigit? c).any (· < base)) text).map fun digits => Int.ofNat (inBase base digits)

/-- An integer of 64 bits. -/
def integer? (token : List Char) : Option Int :=
  let number := match token with
    | '0' :: 'x' :: rest => basedNumber? 16 rest
    | '0' :: 'o' :: rest => basedNumber? 8 rest
    | '0' :: 'b' :: rest => basedNumber? 2 rest
    | _ =>
      let (sign, digits) := cutSign token
      (plainDigits? digits).bind fun digits => Text.integer? (sign ++ digits)
  number.filter Text.fits64

/-- The digits of an exponent, behind an optional sign. -/
def isExponent (text : List Char) : Bool :=
  (digits? Char.isDigit (cutSign text).2).isSome

/-- Whether a token writes a floating-point number: digits and a fraction, an exponent or both, or a
word for an infinity or a NaN. A number too large for a finite one must be negative. -/
def isFloat (token : List Char) : Bool :=
  let (sign, body) := cutSign token
  let isE (c : Char) : Bool := c == 'e' || c == 'E'
  let mantissa := body.takeWhile fun c => !isE c
  let exponent := body.dropWhile fun c => !isE c
  let whole := mantissa.takeWhile (· != '.')
  let fraction := mantissa.dropWhile (· != '.')
  let isNumber := (plainDigits? whole).isSome
    && (fraction.isEmpty || (digits? Char.isDigit (fraction.drop 1)).isSome)
    && (exponent.isEmpty || isExponent (exponent.drop 1))
    && !(fraction.isEmpty && exponent.isEmpty)
  let isFinite := (Double.ofText? (token.filter (· != '_'))).isSome
  (isNumber && (isFinite || sign == ['-'])) || body == "inf".toList || body == "nan".toList

/-- A number of so many digits within bounds. -/
def isField (width low high : Nat) (text : List Char) : Bool :=
  text.length == width && text.all Char.isDigit
    && (Text.natural? text).any fun n => decide (low ≤ n ∧ n ≤ high)

/-- The number of days of a month. -/
def monthDays (year month : Nat) : Nat :=
  let leap := (year % 4 == 0 && year % 100 != 0) || year % 400 == 0
  match month with
  | 2 => if leap then 29 else 28
  | 4 | 6 | 9 | 11 => 30
  | _ => 31

/-- A date, such as `1979-05-27`. -/
def isDate (text : List Char) : Bool :=
  match Text.splitAt '-' text with
  | [year, month, day] =>
    let number (digits : List Char) : Nat := (Text.natural? digits).getD 0
    isField 4 0 9999 year && isField 2 1 12 month
      && isField 2 1 (monthDays (number year) (number month)) day
  | _ => false

/-- A time of day, such as `07:32:00.5`. -/
def isTime (text : List Char) : Bool :=
  match Text.splitAt ':' text with
  | [hour, minute, second] =>
    let whole := second.takeWhile (· != '.')
    let fraction := second.dropWhile (· != '.')
    isField 2 0 23 hour && isField 2 0 59 minute && isField 2 0 60 whole
      && (fraction.isEmpty || (fraction.length > 1 && (fraction.drop 1).all Char.isDigit))
  | _ => false

/-- A time of day with an optional offset. -/
def isZonedTime (text : List Char) : Bool :=
  let isOffset (offset : List Char) : Bool :=
    match Text.splitAt ':' offset with
    | [hour, minute] => isField 2 0 23 hour && isField 2 0 59 minute
    | _ => false
  match text.reverse with
  | 'Z' :: before | 'z' :: before => isTime before.reverse
  | _ =>
    isTime text || (isTime (text.take (text.length - 6))
      && ((text.drop (text.length - 6)).head?.any fun c => c == '+' || c == '-')
      && isOffset (text.drop (text.length - 5)))

/-- A date, a time, or a date and a time with a `T` between them. -/
def isMoment (token : List Char) : Bool :=
  isDate token || isTime token
    || (isDate (token.take 10) && ((token.drop 10).head?.any fun c => c == 'T' || c == 't')
      && isZonedTime (token.drop 11))

/-- The value of a token without quotes and brackets. -/
def tokenTerm? (token : List Char) : Option Term :=
  if token = "true".toList then some (.flag true)
  else if token = "false".toList then some (.flag false)
  else if isMoment token then some (.moment (String.ofList token))
  else if isFloat token then some (.float (String.ofList token))
  else (integer? token).map Term.integer

/-- A value without quotes and brackets. A date and its time may also have one blank between them.
-/
def tokenValue : Reader Term := fun text =>
  let token := text.takeWhile isTokenChar
  let rest := text.dropWhile isTokenChar
  match isDate token, rest with
  | true, ' ' :: more =>
    let time := more.takeWhile isTokenChar
    if isZonedTime time then
      some (.moment (String.ofList (token ++ ' ' :: time)), more.dropWhile isTokenChar)
    else (tokenTerm? token).map fun term => (term, rest)
  | _, _ => (tokenTerm? token).map fun term => (term, rest)

/-! ## Arrays and tables between brackets -/

/-- What follows blanks, line ends and comments, for at most `fuel` steps. -/
def skipFiller : Nat → List Char → Option (List Char)
  | 0, text => some text
  | fuel + 1, text =>
    match skipBlanks text with
    | '#' :: rest => (afterComment? ('#' :: rest)).bind (skipFiller fuel)
    | text =>
      match afterLineEnd? text with
      | some rest => skipFiller fuel rest
      | none => some text

/-- What follows blanks, line ends and comments. -/
def afterFiller? (text : List Char) : Option (List Char) := skipFiller (text.length + 1) text

/-- The items of an array and its closing bracket, given a reader of items; a comma may stand behind
the last one. -/
def arrayItems (item : Reader Term) : Nat → Reader (List Term)
  | 0, _ => none
  | fuel + 1, text =>
    match afterFiller? text with
    | none => none
    | some (']' :: rest) => some ([], rest)
    | some text =>
      match item text with
      | none => none
      | some (term, rest) =>
        match afterFiller? rest with
        | some (',' :: rest) =>
          (arrayItems item fuel rest).map fun (more, rest) => (term :: more, rest)
        | some (']' :: rest) => some ([term], rest)
        | _ => none

/-- The entries of a table between braces and its closing brace; they stand on one line. -/
def braceEntries (value : Reader Term) : Nat → Items → Reader Items
  | 0, _, _ => none
  | fuel + 1, entries, text =>
    match key text with
    | none => none
    | some (name, rest) =>
      match rest with
      | '=' :: rest =>
        match value (skipBlanks rest) with
        | none => none
        | some (term, rest) =>
          match addEntry name term entries with
          | none => none
          | some entries =>
            match skipBlanks rest with
            | ',' :: rest => braceEntries value fuel entries rest
            | '\x7d' :: rest => some (entries, rest)
            | _ => none
      | _ => none

/-- A value whose brackets nest at most `depth` deep. -/
def value : Nat → Reader Term
  | depth, text =>
    match text with
    | '"' :: _ | '\'' :: _ => (quotedText text).map fun (s, rest) => (.text s, rest)
    | '[' :: rest =>
      match depth with
      | 0 => none
      | depth + 1 =>
        (arrayItems (value depth) (rest.length + 1) rest).map fun (items, rest) => (.array items, rest)
    | '\x7b' :: rest =>
      match depth with
      | 0 => none
      | depth + 1 =>
        match skipBlanks rest with
        | '\x7d' :: rest => some (.table [], rest)
        | rest =>
          (braceEntries (value depth) (rest.length + 1) [] rest).map fun (entries, rest) =>
            (.table (terms entries), rest)
    | text => tokenValue text

end ChartLift.Toml
