/-!
# Ranges of code points

A class of characters given as a table of closed intervals of code points, and membership in it.
-/

namespace ChartLift.Text

/-- A class of characters: closed intervals of code points, in ascending order. -/
abbrev Ranges := List (Nat × Nat)

/-- A code point is in the class when one of the intervals holds it; since they ascend, the search
stops at the first interval that ends at or after the code point. -/
def Ranges.holds : Ranges → Nat → Bool
  | [], _ => false
  | (first, last) :: rest, code =>
    if code ≤ last then decide (first ≤ code) else Ranges.holds rest code

/-- Membership of a character in the class. -/
def Ranges.contains (ranges : Ranges) (c : Char) : Bool :=
  ranges.holds c.toNat

end ChartLift.Text
