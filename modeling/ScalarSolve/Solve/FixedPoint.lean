import ScalarSolve.Curve
import ScalarSolve.Solve.Limits
import ScalarSolve.Solve.Run

/-!
# Relaxed fixed-point iteration

Each step mixes the point with its image.  The search converges when a step is within the tolerance
and the map and the residual are defined where it ends; points beyond a bound are runaways.
-/

namespace ScalarSolve.FixedPoint

open Formula

variable {F : Type} [Arith F]

/-- The largest magnitude of a point. -/
def bound : F := Arith.ofDecimal 1 100

/-- The mixture of a point and its image, with weight `r` on the image. -/
def mixture (r x image : F) : F := (Arith.one - r) * x + r * image

/-- A point that the search may go to. -/
def isTame (x : F) : Bool := Arith.isFinite x && !Arith.lt bound (Arith.abs x)

/-- The search from the last point, with so many iterations left. -/
def iterate (l : Limits F) (r : F) (g residual : PartialMap F) : Nat → Iterates F → Run F
  | 0, xs => xs.exhausted l.maxIterations (residual xs.last)
  | left + 1, xs =>
    match g xs.last with
    | .error e => xs.undefined e
    | .ok image =>
      let next := mixture r xs.last image
      if !isTame next then xs.diverged .runaway (image - xs.last)
      else
        let xs := xs.accept next
        if l.reached xs.delta then xs.settle (do let _ ← g next; residual next)
        else iterate l r g residual left xs

/-- Weights are positive and at most one. -/
def isWeight (r : F) : Bool := Arith.isPositive r && Arith.le r Arith.one

/-- The search for a fixed point, with a residual to report. -/
def search (l : Limits F) (r : F) (g residual : PartialMap F) (x : F) :
    Except (RangeError F) (Run F) := do
  l.validate
  if !isWeight r then .error (.relaxation r)
  else if !Arith.isFinite x then .error (.startPoint x)
  else return iterate l r g residual l.maxIterations (.start x)

/-- How far a map moves a point. -/
def displacement (g : PartialMap F) : PartialMap F := fun x ↦ (g x).map (· - x)

/-- The search for a fixed point, whose residual is how far the map still moves it. -/
def findFixedPoint (l : Limits F) (r : F) (g : PartialMap F) (x : F) :
    Except (RangeError F) (Run F) :=
  search l r g (displacement g) x

/-- The search for a fixed point of `g`; with an `f` its values are the residuals. -/
def solve (l : Limits F) (r : F) (g : Curve F) (f : Option (Curve F)) (x : F) :
    Except (RangeError F) (Run F) :=
  match f with
  | some f => search l r g.eval f.eval x
  | none => findFixedPoint l r g.eval x

end ScalarSolve.FixedPoint
