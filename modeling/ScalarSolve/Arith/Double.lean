import ScalarSolve.Arith
import ScalarSolve.Decimal.Nearest
import ScalarSolve.Decimal.Layout

/-!
# Double-precision arithmetic

IEEE doubles are the number type of the program.  Decimals round to the nearest double, and the
text of a double inside a sentence reads back to it.
-/

namespace ScalarSolve

namespace Double

/-- One with the sign bit of the argument; zeros have a sign too. -/
def signum (x : Float) : Float :=
  if x.isNaN then x else if x.toBits >>> 63 == 1 then -1 else 1

end Double

instance : Arith Float where
  add := Float.add
  sub := Float.sub
  mul := Float.mul
  div := Float.div
  neg := Float.neg
  sin := Float.sin
  cos := Float.cos
  tan := Float.tan
  exp := Float.exp
  log := Float.log
  sqrt := Float.sqrt
  abs := Float.abs
  pow := Float.pow
  signum := Double.signum
  eq a b := a == b
  lt a b := a < b
  le a b := a ≤ b
  isFinite := Float.isFinite
  ofNat := Float.ofNat
  ofDecimal := Decimal.nearest
  pi := Decimal.nearest 3141592653589793 (-15)
  e := Decimal.nearest 2718281828459045 (-15)
  nan := 0.0 / 0.0
  infinity := 1.0 / 0.0
  relativeStep := Decimal.nearest 60554544523933395 (-22)

instance : Numeral Float where
  text := Decimal.Layout.sentence.text

end ScalarSolve
