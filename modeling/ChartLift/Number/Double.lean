import ChartLift.Number.Power

/-!
# Binary floating-point numbers

Numbers of the IEEE 754 format with 64 bits, kept as their bits. A non-zero finite number is
`mantissa * 2 ^ exponent`, and rounding a quotient takes the nearest number, of two equally near
ones the one with the even mantissa.
-/

namespace ChartLift

/-- A number of the IEEE 754 format with 64 bits. -/
structure Double where
  /-- Sign, exponent and mantissa. -/
  bits : UInt64
  deriving DecidableEq, Repr, Inhabited

namespace Double

/-- Whether the sign bit is set. -/
def isNegative (x : Double) : Bool := decide (twoTo 63 ≤ x.bits.toNat)

/-- The bits without the sign. -/
def magnitude (x : Double) : Nat := x.bits.toNat % twoTo 63

/-- Neither infinite nor a NaN. -/
def isFinite (x : Double) : Bool := decide (x.magnitude < 2047 * twoTo 52)

/-- The number with the given magnitude bits and sign. -/
def ofMagnitude (negative : Bool) (magnitude : Nat) : Double :=
  ⟨UInt64.ofNat (if negative then twoTo 63 + magnitude else magnitude)⟩

/-- The mantissa of a finite number. -/
def mantissa (x : Double) : Nat :=
  if x.magnitude < twoTo 52 then x.magnitude else x.magnitude % twoTo 52 + twoTo 52

/-- The exponent of a finite number. -/
def exponent (x : Double) : Int :=
  if x.magnitude < twoTo 52 then -1074 else (x.magnitude / twoTo 52 : Nat) - 1075

/-- A quotient rounded to the nearest natural number, a half to the even one. -/
def roundQuotient (num den : Nat) : Nat :=
  let whole := num / den
  let rest := num % den
  if 2 * rest < den then whole
  else if den < 2 * rest then whole + 1
  else whole + whole % 2

/-- The largest `e` with `2 ^ e ≤ num / den`, for positive numbers. -/
def floorLog2 (num den : Nat) : Int :=
  let guess : Int := (num.log2 : Int) - den.log2
  if den * twoTo guess.toNat ≤ num * twoTo (-guess).toNat then guess else guess - 1

/-- The magnitude bits of the number nearest to a quotient; too large a quotient gives those of
infinity. -/
def nearestMagnitude (num den : Nat) : Nat :=
  if num = 0 then 0
  else
    let e := max (floorLog2 num den - 52) (-1074)
    let m := roundQuotient (num * twoTo (-e).toNat) (den * twoTo e.toNat)
    if m < twoTo 52 then m
    else min ((e + 1074).toNat * twoTo 52 + m) (2047 * twoTo 52)

/-- The number nearest to `digits * 10 ^ scale`. Scales that are out of every number's reach are
settled without writing out their powers. -/
def ofDecimal (negative : Bool) (digits : Nat) (scale : Int) : Double :=
  let size : Int := (Nat.toDigits 10 digits).length
  ofMagnitude negative <|
    if digits = 0 ∨ size + scale < -330 then 0
    else if 310 < size + scale then 2047 * twoTo 52
    else nearestMagnitude (digits * tenTo scale.toNat) (tenTo (-scale).toNat)

/-- The text of a number as digits, a point and an exponent of ten. -/
structure Decimal where
  negative : Bool
  digits : Nat
  scale : Int

/-- Splits a text into its leading decimal digits and the rest. -/
def splitDigits (text : List Char) : List Char × List Char :=
  (text.takeWhile Char.isDigit, text.dropWhile Char.isDigit)

/-- The value of decimal digits, the first one first. -/
def digitsValue (digits : List Char) : Nat :=
  digits.foldl (fun value c => value * 10 + (c.toNat - '0'.toNat)) 0

/-- An exponent: digits behind an optional sign, and nothing else. -/
def exponent? (text : List Char) : Option Int :=
  let (negative, digits) := match text with
    | '-' :: rest => (true, rest)
    | '+' :: rest => (false, rest)
    | _ => (false, text)
  if digits.isEmpty || !digits.all Char.isDigit then none
  else
    let value : Int := digitsValue digits
    some (if negative then -value else value)

/-- A decimal: digits with an optional point among or around them, at least one of them, and an
optional exponent. -/
def decimal? (negative : Bool) (text : List Char) : Option Decimal :=
  let (whole, rest) := splitDigits text
  let (fraction, rest) := match rest with
    | '.' :: after => splitDigits after
    | _ => ([], rest)
  if whole.isEmpty && fraction.isEmpty then none
  else
    let digits := digitsValue (whole ++ fraction)
    let shift : Int := fraction.length
    match rest with
    | [] => some ⟨negative, digits, -shift⟩
    | e :: after =>
      if e = 'e' ∨ e = 'E' then
        (exponent? after).map fun scale => ⟨negative, digits, scale - shift⟩
      else none

/-- The finite number nearest to a decimal behind an optional sign. -/
def ofText? (text : List Char) : Option Double :=
  let decimal := match text with
    | '-' :: rest => decimal? true rest
    | '+' :: rest => decimal? false rest
    | _ => decimal? false text
  (decimal.map fun d => ofDecimal d.negative d.digits d.scale).filter isFinite

end Double

end ChartLift
