import ChartLift.Number.Shortest

/-!
# Layout of numbers

How a finite number stands in a text: its shortest digits, with a point or an exponent.
-/

namespace ChartLift

/-- The decisions of a format about numbers. -/
structure NumberLayout where
  /-- Numbers from this power of ten on are written with an exponent. -/
  highest : Int
  /-- Numbers below this power of ten are written with an exponent. -/
  lowest : Int
  /-- Whether a positive exponent has a plus sign. -/
  plusSign : Bool

namespace NumberLayout

/-- The texts of JSON: positional from `0.00001` up to `10 ^ 16`, an exponent with its sign. -/
def json : NumberLayout := ⟨16, -5, true⟩

/-- The texts of YAML: positional from `0.00001` up to `10 ^ 16`, a positive exponent bare. -/
def yaml : NumberLayout := ⟨16, -5, false⟩

/-- Digits with the point behind the first `point` of them; a whole number keeps one zero behind the
point. -/
def positional (digits : List Char) (point : Int) : List Char :=
  if point ≤ 0 then '0' :: '.' :: (List.replicate (-point).toNat '0' ++ digits)
  else if digits.length ≤ point.toNat then
    digits ++ List.replicate (point.toNat - digits.length) '0' ++ ['.', '0']
  else digits.take point.toNat ++ '.' :: digits.drop point.toNat

/-- An exponent of ten. -/
def exponent (layout : NumberLayout) (e : Int) : List Char :=
  let sign := if e < 0 then ['-'] else if layout.plusSign then ['+'] else []
  'e' :: (sign ++ Nat.toDigits 10 e.natAbs)

/-- Digits with the point behind the first one and an exponent. -/
def scientific (layout : NumberLayout) (digits : List Char) (e : Int) : List Char :=
  let fraction := match digits.drop 1 with
    | [] => []
    | more => '.' :: more
  digits.take 1 ++ fraction ++ layout.exponent e

/-- The text of a finite number. -/
def write (layout : NumberLayout) (x : Double) : String :=
  let (digits, scale) := x.shortest
  let digits := Nat.toDigits 10 digits
  let point : Int := digits.length + scale
  let text :=
    if x.magnitude = 0 then positional digits 1
    else if layout.lowest < point ∧ point ≤ layout.highest then positional digits point
    else layout.scientific digits (point - 1)
  String.ofList (if x.isNegative then '-' :: text else text)

end NumberLayout

end ChartLift
