import Mathlib.Algebra.Group.Nat.Defs

/-!
# Floating-point numbers

A `f64` by its bits, for code that copies and compares such numbers but does not compute with them.
-/

namespace DesCartes.Explore

/-- A `f64`, by its bits. -/
abbrev F64 := BitVec 64

namespace F64

/-- The number without its sign, as the bits order it. -/
def magnitude (x : F64) : Nat := x.toNat % 2 ^ 63

/-- Not a number. -/
def isNaN (x : F64) : Bool := 0x7FF0000000000000 < magnitude x

/-- The numbers in their order; both zeros are `0`. -/
def rank (x : F64) : Int := if x.toNat < 2 ^ 63 then magnitude x else -magnitude x

/-- `>=` of `f64`. -/
def ge (x y : F64) : Bool := !isNaN x && !isNaN y && decide (rank y ≤ rank x)

/-- `>` of `f64`. -/
def gt (x y : F64) : Bool := !isNaN x && !isNaN y && decide (rank y < rank x)

end F64

end DesCartes.Explore
