/-!
# Powers

Powers of the two bases that numbers are read and written in.
-/

namespace ChartLift

/-- A power of two. -/
def twoTo (exponent : Nat) : Nat := Nat.pow 2 exponent

/-- A power of ten. -/
def tenTo (exponent : Nat) : Nat := Nat.pow 10 exponent

end ChartLift
