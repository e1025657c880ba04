/-!
# Arithmetic

Formulas, their derivatives and the iterations that search for roots use a number type only through
the operations listed here.  Nothing is assumed of them: comparisons are tests, division is total,
and which numbers count as finite is up to the type.
-/

namespace ScalarSolve

/-- A number type with the operations of formulas and of the iterations over them. -/
class Arith (F : Type) extends Add F, Sub F, Mul F, Div F, Neg F where
  sin : F → F
  cos : F → F
  tan : F → F
  exp : F → F
  log : F → F
  sqrt : F → F
  abs : F → F
  pow : F → F → F
  /-- One with the sign of the argument. -/
  signum : F → F
  /-- Numerical equality. -/
  eq : F → F → Bool
  lt : F → F → Bool
  le : F → F → Bool
  isFinite : F → Bool
  ofNat : Nat → F
  /-- The number nearest to `coefficient · 10 ^ exponent`. -/
  ofDecimal : (coefficient : Nat) → (exponent : Int) → F
  pi : F
  e : F
  /-- The value of an undefined quantity. -/
  nan : F
  /-- Above every finite number. -/
  infinity : F
  /-- The relative step that balances truncation against rounding in a central difference. -/
  relativeStep : F

/-- A number type whose numbers have a text in sentences and formulas. -/
class Numeral (F : Type) where
  text : F → String

namespace Arith

variable {F : Type} [Arith F]

def zero : F := ofNat 0

def one : F := ofNat 1

def half : F := ofDecimal 5 (-1)

def isZero (x : F) : Bool := eq x zero

def isPositive (x : F) : Bool := lt zero x

def isNegative (x : F) : Bool := lt x zero

/-- Only an undefined quantity differs from itself. -/
def isNaN (x : F) : Bool := !eq x x

/-- The greater of two numbers; an undefined one gives way, and the first wins a tie. -/
def max (a b : F) : F := if isNaN a then b else if lt a b then b else a

/-- The lesser of two numbers; an undefined one gives way, and the first wins a tie. -/
def min (a b : F) : F := if isNaN a then b else if lt b a then b else a

/-- Fit for a step, a radius or a tolerance. -/
def isStep (h : F) : Bool := isFinite h && isPositive h

end Arith

end ScalarSolve
