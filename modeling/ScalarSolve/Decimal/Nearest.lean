/-!
# The double nearest to a decimal

A decimal is a coefficient and a power of ten.  It is brought to the form `m · 2 ^ q` with the
widest `m` that a double holds, the remainder of the division decides the rounding, and a tie goes
to the even `m`.  All of it is exact arithmetic on natural numbers.
-/

namespace ScalarSolve.Decimal

/-- The quotient rounded to the nearest natural number, ties to the even one. -/
def roundedDiv (num den : Nat) : Nat :=
  let m := num / den
  let twice := 2 * (num % den)
  if twice < den then m
  else if den < twice then m + 1
  else m + m % 2

/-- The bits of positive infinity, above those of every finite magnitude. -/
def infinityBits : Nat := 0x7FF <<< 52

/-- The least exponent of two: every finite double is a multiple of `2 ^ (-1074)`. -/
def leastExponent : Int := -1074

/-- The exponent at which `num / den` has a mantissa of 53 bits, or the least one. -/
def binaryExponent (num den : Nat) : Int :=
  let q : Int := (num.log2 : Int) - den.log2 - 53
  let fits := if 0 ≤ q then num < den <<< (q.toNat + 53)
    else num <<< (-q).toNat < den <<< 53
  max (if fits then q else q + 1) leastExponent

/-- The bits of the double nearest to the positive ratio `num / den`.

A mantissa that rounds up to the next power of two carries into the exponent field, and past the
largest finite double the result is infinity. -/
def nearestBits (num den : Nat) : Nat :=
  let q := binaryExponent num den
  let m := if 0 ≤ q then roundedDiv num (den <<< q.toNat)
    else roundedDiv (num <<< (-q).toNat) den
  min (((q - leastExponent).toNat <<< 52) + m) infinityBits

/-- Past this power of ten every nonzero decimal is infinite, and below its negative zero. -/
def exponentCap : Int := 400

/-- The bits of the double nearest to `coefficient · 10 ^ exponent`. -/
def decimalBits (coefficient : Nat) (exponent : Int) : Nat :=
  if coefficient = 0 then 0
  else if exponentCap < exponent then infinityBits
  else if exponent + (coefficient.log2 / 3 : Nat) < -exponentCap then 0
  else if 0 ≤ exponent then nearestBits (coefficient * Nat.pow 10 exponent.toNat) 1
  else nearestBits coefficient (Nat.pow 10 (-exponent).toNat)

/-- The double nearest to `coefficient · 10 ^ exponent`. -/
def nearest (coefficient : Nat) (exponent : Int) : Float :=
  Float.ofBits (UInt64.ofNat (decimalBits coefficient exponent))

end ScalarSolve.Decimal
