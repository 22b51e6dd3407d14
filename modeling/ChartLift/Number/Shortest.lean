import ChartLift.Number.Double

/-!
# Shortest decimals

The decimal with the fewest digits that is read back as a given number, and of those the nearest
one.

A number `m * 2 ^ q` owns the reals that round to it: from halfway to its lower neighbour up to
halfway to its upper one, ends included when `m` is even. The search takes the grids of 1, 2, ... 17
significant digits in turn, and on each the two points around the number.
-/

namespace ChartLift.Double

/-- Whether `a * 10 ^ s ≤ b * 2 ^ q`, in integers. -/
def decimalAtMost (a : Nat) (s : Int) (b : Nat) (q : Int) : Bool :=
  decide (a * tenTo s.toNat * twoTo (-q).toNat ≤ b * twoTo q.toNat * tenTo (-s).toNat)

/-- Whether `b * 2 ^ q ≤ a * 10 ^ s`, in integers. -/
def binaryAtMost (b : Nat) (q : Int) (a : Nat) (s : Int) : Bool :=
  decide (b * twoTo q.toNat * tenTo (-s).toNat ≤ a * tenTo s.toNat * twoTo (-q).toNat)

/-- Whether `a * 10 ^ s` rounds to the finite positive number `x`. -/
def owns (x : Double) (a : Nat) (s : Int) : Bool :=
  let m := x.mantissa
  let q := x.exponent
  let below := if m = twoTo 52 ∧ -1074 < q then 4 * m - 1 else 4 * m - 2
  let above := 4 * m + 2
  if m % 2 = 0 then binaryAtMost below (q - 2) a s && decimalAtMost a s above (q - 2)
  else !decimalAtMost a s below (q - 2) && !binaryAtMost above (q - 2) a s

/-- The largest `k` with `10 ^ k ≤ x`, found from an estimate that is at most two too large. -/
def floorLog10 (x : Double) : Int :=
  let m := x.mantissa
  let q := x.exponent
  let estimate := ((m.log2 : Int) + q) * 30103 / 100000 + 1
  match [estimate, estimate - 1, estimate - 2].find? fun k => decimalAtMost 1 k m q with
  | some k => k
  | none => estimate - 3

/-- The point of the grid with unit `10 ^ s` that `x` is at or above. -/
def gridBelow (x : Double) (s : Int) : Nat :=
  (x.mantissa * twoTo x.exponent.toNat * tenTo (-s).toNat) / (tenTo s.toNat * twoTo (-x.exponent).toNat)

/-- The nearer of two neighbouring grid points that both round to `x`: the lower one unless twice
`x` lies beyond their sum, or at it with the lower one odd. -/
def nearerPoint (x : Double) (low : Nat) (s : Int) : Nat :=
  if !decimalAtMost (2 * low + 1) s (2 * x.mantissa) x.exponent then low
  else if !binaryAtMost (2 * x.mantissa) x.exponent (2 * low + 1) s then low + 1
  else low + low % 2

/-- The first grid, of those with `count` digits, one more and so on, with a point that rounds to
`x`; the grid with 17 digits always has one. -/
def searchGrids (x : Double) (top : Int) (count : Nat) : Nat → Nat × Int
  | 0 => (x.gridBelow (top - 16), top - 16)
  | fuel + 1 =>
    let s := top - count + 1
    let low := x.gridBelow s
    match x.owns low s, x.owns (low + 1) s with
    | true, true => (x.nearerPoint low s, s)
    | true, false => (low, s)
    | false, true => (low + 1, s)
    | false, false => searchGrids x top (count + 1) fuel

/-- Digits without trailing zeros, the scale raised for each one taken away. -/
def withoutZeros (digits : Nat) (s : Int) : Nat → Nat × Int
  | 0 => (digits, s)
  | fuel + 1 =>
    if digits % 10 = 0 ∧ digits ≠ 0 then withoutZeros (digits / 10) (s + 1) fuel else (digits, s)

/-- The fewest digits that read back as a finite number, with their scale; zero is the digit zero.
-/
def shortest (x : Double) : Nat × Int :=
  if x.magnitude = 0 then (0, 0)
  else
    let (digits, s) := searchGrids x x.floorLog10 1 17
    withoutZeros digits s 20

end ChartLift.Double
