import ChartLift.Number.Double
import ChartLift.Text.Integer
import ChartLift.Value.Basic

/-!
# What plain scalars mean

A plain scalar without a tag is null, a boolean, an integer, a floating-point number or a text, in
this order. A tag of the core schema forces one of them.
-/

namespace ChartLift.Yaml.Content

/-- Words for null. -/
def isNullWord (text : String) : Bool :=
  ["null", "Null", "NULL", "~"].contains text

/-- Words for booleans. -/
def booleanWord? (text : String) : Option Bool :=
  if ["true", "True", "TRUE"].contains text then some true
  else if ["false", "False", "FALSE"].contains text then some false
  else none

/-- The value of a digit in a base up to sixteen. -/
def digitIn? (base : Nat) (c : Char) : Option Nat :=
  let value := if c.isDigit then some (c.toNat - 48)
    else if 'a' ≤ c ∧ c ≤ 'f' then some (c.toNat - 87)
    else if 'A' ≤ c ∧ c ≤ 'F' then some (c.toNat - 55)
    else none
  value.filter (· < base)

/-- The number that one or more digits write in a base. -/
def digitsIn? (base : Nat) (digits : List Char) : Option Nat :=
  if digits.isEmpty then none
  else digits.foldl (fun value c => match value, digitIn? base c with
    | some n, some d => some (n * base + d)
    | _, _ => none) (some 0)

/-- A text without its sign. -/
def withoutSign : List Char → List Char
  | '+' :: rest => rest
  | '-' :: rest => rest
  | text => text

/-- A leading zero and more digits, behind an optional sign: such a text is no number. -/
def isZeroPadded (text : List Char) : Bool :=
  match withoutSign text with
  | '0' :: rest => !rest.isEmpty && rest.all Char.isDigit
  | _ => false

/-- The number behind one of the marks `0x`, `0o` and `0b`. -/
def markedNumber? : List Char → Option Nat
  | '0' :: 'x' :: digits => digitsIn? 16 digits
  | '0' :: 'o' :: digits => digitsIn? 8 digits
  | '0' :: 'b' :: digits => digitsIn? 2 digits
  | _ => none

/-- The integer that a text writes: decimal digits or a marked number, behind an optional sign. -/
def writtenInteger? (text : List Char) : Option Int :=
  let magnitude? (digits : List Char) : Option Nat :=
    match markedNumber? digits with
    | some n => some n
    | none => if isZeroPadded text then none else digitsIn? 10 digits
  match text with
  | '+' :: digits => (magnitude? digits).map Int.ofNat
  | '-' :: digits => (magnitude? digits).map fun n => -(n : Int)
  | digits => (magnitude? digits).map Int.ofNat

/-- What a text says about an integer. -/
inductive IntegerReading where
  /-- It writes none, or one that is far too large. -/
  | no
  /-- It writes one that fits 64 bits. -/
  | fits (i : Int)
  /-- It writes one that fits 128 bits only. -/
  | tooLarge
  deriving DecidableEq, Repr

/-- The integer that a text writes, by its size. -/
def integerReading (text : String) : IntegerReading :=
  match writtenInteger? text.toList with
  | none => .no
  | some i =>
    if -9223372036854775808 ≤ i ∧ i ≤ 18446744073709551615 then .fits i
    else if -170141183460469231731687303715884105728 ≤ i
        ∧ i ≤ 340282366920938463463374607431768211455 then .tooLarge
    else .no

/-- What a text says about a floating-point number. -/
inductive FloatReading where
  | no
  | finite (x : Double)
  /-- An infinity or a NaN, by a word for it. -/
  | special
  deriving DecidableEq, Repr

/-- Words for infinities and NaN. -/
def specialWords : List String :=
  [".inf", ".Inf", ".INF", "+.inf", "+.Inf", "+.INF", "-.inf", "-.Inf", "-.INF", ".nan", ".NaN", ".NAN"]

/-- The floating-point number that a text writes. -/
def floatReading (text : String) : FloatReading :=
  if specialWords.contains text then .special
  else
    match Double.ofText? text.toList with
    | some x => .finite x
    | none => .no

/-- What a plain scalar without a tag means. -/
inductive PlainMeaning where
  | null
  | bool (b : Bool)
  | integer (i : Int)
  /-- An integer that fits no value. -/
  | tooLarge
  | float (x : Double)
  /-- An infinity or a NaN. -/
  | special
  | text
  deriving DecidableEq, Repr

/-- The meaning of a plain scalar without a tag. -/
def plainMeaning (text : String) : PlainMeaning :=
  if text.isEmpty || isNullWord text then .null
  else
    match booleanWord? text with
    | some b => .bool b
    | none =>
      match integerReading text with
      | .fits i => .integer i
      | .tooLarge => .tooLarge
      | .no =>
        if isZeroPadded text.toList then .text
        else
          match floatReading text with
          | .finite x => .float x
          | .special => .special
          | .no => .text

/-- The value of a plain scalar without a tag; an infinity or a NaN has none but null. -/
def plainValue? (text : String) : Option Value :=
  match plainMeaning text with
  | .null => some .null
  | .bool b => some (.bool b)
  | .integer i => some (.integer i)
  | .tooLarge => none
  | .float x => some (.float x)
  | .special => some .null
  | .text => some (.string text)

/-- The prefix of the tags of the core schema. -/
def coreTag (name : String) : String := "tag:yaml.org,2002:" ++ name

/-- Tags that are local to a document. -/
def isLocalTag (tag : String) : Bool := tag.toList.head? == some '!'

/-- The value that a tag forces on a scalar; a tag that forces none leaves the text as it is. -/
def taggedValue? (tag text : String) : Option Value :=
  if tag = coreTag "bool" then (booleanWord? text).map Value.bool
  else if tag = coreTag "int" then
    match integerReading text with
    | .fits i => some (.integer i)
    | _ => none
  else if tag = coreTag "float" then
    match floatReading text with
    | .finite x => some (.float x)
    | .special => some .null
    | .no => none
  else if tag = coreTag "null" then (if isNullWord text then some .null else none)
  else if isLocalTag tag then none
  else some (.string text)

end ChartLift.Yaml.Content
