import ScalarSolve.Curve
import ScalarSolve.Solve.Limits
import ScalarSolve.Solve.Run

/-!
# Newton's method

Each step goes to where the tangent meets zero.  The search converges when the residual is within
the tolerance before a step, or the step itself is.
-/

namespace ScalarSolve

open Formula

/-- Where slopes come from: the dual pass, or central differences. -/
inductive DerivativeMode (F : Type) where
  | analytic
  | numeric (step : Option F)
deriving DecidableEq, Repr

namespace DerivativeMode

variable {F : Type} [Arith F]

/-- An explicit step has to be finite and positive. -/
def validate : DerivativeMode F → Except (RangeError F) Unit
  | numeric (some h) => if Arith.isStep h then .ok () else .error (.derivativeStep h)
  | numeric none | analytic => .ok ()

/-- The slopes of a curve. -/
def slope (mode : DerivativeMode F) (f : Curve F) : PartialMap F :=
  match mode with
  | analytic => f.slope
  | numeric (some h) => fun x ↦ Derivative.central f.eval x h
  | numeric none => Derivative.atDefaultStep f.eval

end DerivativeMode

namespace Newton

variable {F : Type} [Arith F]

/-- The point where the tangent at `x`, of height `y`, meets zero. -/
def next (f' : PartialMap F) (x y : F) : Except (Breakdown F) F :=
  match f' x with
  | .error _ => .error (.flatDerivative x)
  | .ok d =>
    if Arith.isZero d then .error (.flatDerivative x)
    else
      let z := x - y / d
      if Arith.isFinite z then .ok z else .error .newtonNotFinite

/-- The search from the last point, with so many iterations left. -/
def iterate (l : Limits F) (f f' : PartialMap F) : Nat → Iterates F → Run F
  | 0, xs => xs.exhausted l.maxIterations (f xs.last)
  | left + 1, xs =>
    match f xs.last with
    | .error e => xs.undefined e
    | .ok y =>
      if l.reached (Arith.abs y) then xs.converged y
      else
        match next f' xs.last y with
        | .error why => xs.diverged why y
        | .ok z =>
          let xs := xs.accept z
          if l.reached xs.delta then xs.settle (f z) else iterate l f f' left xs

/-- The search for a root of a function with a given derivative. -/
def findRoot (l : Limits F) (f f' : PartialMap F) (x : F) : Except (RangeError F) (Run F) := do
  l.validate
  if !Arith.isFinite x then .error (.startPoint x)
  else return iterate l f f' l.maxIterations (.start x)

/-- The search for a root of a curve. -/
def solve (l : Limits F) (mode : DerivativeMode F) (f : Curve F) (x : F) :
    Except (RangeError F) (Run F) := do
  mode.validate
  findRoot l f.eval (mode.slope f) x

end Newton

end ScalarSolve
