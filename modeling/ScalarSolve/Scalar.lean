import ScalarSolve.Arith

/-!
# Scalars

What a compiled formula runs on: a number type itself, or numbers that carry a derivative along.
-/

namespace ScalarSolve

/-- A type of values that formulas with constants in `F` evaluate to. -/
class Scalar (F S : Type) where
  /-- A number that does not vary. -/
  constant : F → S
  /-- The plain value, which domain checks look at. -/
  value : S → F
  /-- Every component is finite. -/
  isFinite : S → Bool
  add : S → S → S
  sub : S → S → S
  mul : S → S → S
  div : S → S → S
  neg : S → S
  sin : S → S
  cos : S → S
  tan : S → S
  exp : S → S
  log : S → S
  sqrt : S → S
  abs : S → S
  /-- A power with a number as exponent. -/
  powConst : S → F → S
  /-- A power whose exponent varies too. -/
  pow : S → S → S

/-- Numbers are their own values. -/
instance Scalar.self {F : Type} [Arith F] : Scalar F F where
  constant x := x
  value x := x
  isFinite := Arith.isFinite
  add x y := x + y
  sub x y := x - y
  mul x y := x * y
  div x y := x / y
  neg x := -x
  sin := Arith.sin
  cos := Arith.cos
  tan := Arith.tan
  exp := Arith.exp
  log := Arith.log
  sqrt := Arith.sqrt
  abs := Arith.abs
  powConst := Arith.pow
  pow := Arith.pow

end ScalarSolve
