import ScalarSolve.Curve
import ScalarSolve.Failure

/-!
# Numerical derivatives

The central difference of a function that may be undefined at some points.
-/

namespace ScalarSolve

open Formula

namespace Derivative

variable {F : Type} [Arith F]

/-- The step that suits a point, relative to its magnitude but at least to one. -/
def defaultStep (x : F) : F := Arith.max (Arith.abs x) Arith.one * Arith.relativeStep

/-- The quotient `(f(x + h) - f(x - h)) / 2h`, where it is finite. -/
def central (f : PartialMap F) (x h : F) : Except (EvalError F) F := do
  let forward ← f (x + h)
  let backward ← f (x - h)
  let d := (forward - backward) / (Arith.ofNat 2 * h)
  if Arith.isFinite d then .ok d else .error (.nonFinite x)

/-- The central difference with the step that suits the point. -/
def atDefaultStep (f : PartialMap F) (x : F) : Except (EvalError F) F :=
  central f x (defaultStep x)

/-- The central difference with a given step, which has to be finite and positive, or else with the
default one. -/
def numeric (f : PartialMap F) (x : F) (step : Option F) : Except (Failure F) F :=
  match step with
  | some h =>
    if Arith.isStep h then (central f x h).mapError .undefined
    else .error (.range (.derivativeStep h))
  | none => (atDefaultStep f x).mapError .undefined

end Derivative

end ScalarSolve
