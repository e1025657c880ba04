import ScalarSolve.Scalar

/-!
# Dual numbers

A dual number is a value with its derivative along some direction.  Each operation applies the chain
rule, so running a formula on `x + ε` yields its value and its exact first derivative in one pass.
-/

namespace ScalarSolve

/-- The number `re + eps · ε` with `ε² = 0`. -/
structure Dual (F : Type) where
  re : F
  eps : F
deriving DecidableEq, Repr

namespace Dual

variable {F : Type} [Arith F]

/-- The variable at `x`, with unit derivative. -/
def variableAt (x : F) : Dual F := ⟨x, Arith.one⟩

def constant (c : F) : Dual F := ⟨c, Arith.zero⟩

def add (a b : Dual F) : Dual F := ⟨a.re + b.re, a.eps + b.eps⟩

def sub (a b : Dual F) : Dual F := ⟨a.re - b.re, a.eps - b.eps⟩

def neg (a : Dual F) : Dual F := ⟨-a.re, -a.eps⟩

def mul (a b : Dual F) : Dual F := ⟨a.re * b.re, a.eps * b.re + b.eps * a.re⟩

/-- The quotient by way of the reciprocal of the divisor. -/
def div (a b : Dual F) : Dual F :=
  let inv := Arith.one / b.re
  ⟨a.re * inv, (a.eps * b.re - b.eps * a.re) * inv * inv⟩

def sin (a : Dual F) : Dual F := ⟨Arith.sin a.re, a.eps * Arith.cos a.re⟩

def cos (a : Dual F) : Dual F := ⟨Arith.cos a.re, a.eps * -Arith.sin a.re⟩

def tan (a : Dual F) : Dual F := a.sin.div a.cos

def exp (a : Dual F) : Dual F :=
  let y := Arith.exp a.re
  ⟨y, a.eps * y⟩

def log (a : Dual F) : Dual F := ⟨Arith.log a.re, a.eps * (Arith.one / a.re)⟩

def sqrt (a : Dual F) : Dual F :=
  let inv := Arith.one / a.re
  let y := Arith.sqrt a.re
  ⟨y, a.eps * (y * inv * Arith.half)⟩

/-- The absolute value; at zero the slope is the one on the side of the sign of zero. -/
def abs (a : Dual F) : Dual F := ⟨Arith.abs a.re, a.eps * Arith.signum a.re⟩

/-- A constant power by the power rule, which keeps `x ^ 2` differentiable at zero. -/
def powConst (a : Dual F) (n : F) : Dual F :=
  if Arith.isZero n then constant Arith.one
  else ⟨Arith.pow a.re n, n * Arith.pow a.re (n - Arith.one) * a.eps⟩

/-- A varying power as `exp (log a * b)`, defined for positive bases only. -/
def pow (a b : Dual F) : Dual F := (a.log.mul b).exp

instance : Scalar F (Dual F) where
  constant := constant
  value a := a.re
  isFinite a := Arith.isFinite a.re && Arith.isFinite a.eps
  add := add
  sub := sub
  mul := mul
  div := div
  neg := neg
  sin := sin
  cos := cos
  tan := tan
  exp := exp
  log := log
  sqrt := sqrt
  abs := abs
  powConst := powConst
  pow := pow

end Dual

end ScalarSolve
