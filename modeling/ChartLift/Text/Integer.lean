/-!
# Decimal integers

Integers as texts: an optional sign and decimal digits.
-/

namespace ChartLift.Text

/-- The value of a decimal digit. -/
def digitValue? (c : Char) : Option Nat :=
  if '0' ≤ c ∧ c ≤ '9' then some (c.toNat - '0'.toNat) else none

/-- The number that decimal digits write, read onto the digits already seen. -/
def digitsOnto (seen : Nat) : List Char → Option Nat
  | [] => some seen
  | c :: rest =>
    match digitValue? c with
    | some d => digitsOnto (seen * 10 + d) rest
    | none => none

/-- A number written as one or more decimal digits. -/
def natural? : List Char → Option Nat
  | [] => none
  | digits => digitsOnto 0 digits

/-- An integer: decimal digits behind an optional sign. -/
def integer? : List Char → Option Int
  | '-' :: digits => (natural? digits).map fun n => -(n : Int)
  | '+' :: digits => (natural? digits).map Int.ofNat
  | digits => (natural? digits).map Int.ofNat

/-- Integers that fit 64 bits, with sign. -/
def fits64 (i : Int) : Bool :=
  decide (-9223372036854775808 ≤ i) && decide (i ≤ 9223372036854775807)

/-- An integer that fits 64 bits, with sign. -/
def integer64? (text : List Char) : Option Int :=
  (integer? text).filter fits64

/-- An integer in decimal, with a minus sign where it is negative. -/
def decimal (i : Int) : List Char :=
  match i with
  | .ofNat n => Nat.toDigits 10 n
  | .negSucc n => '-' :: Nat.toDigits 10 (n + 1)

end ChartLift.Text
