import ScalarSolve.Curve
import ScalarSolve.Solve.Limits
import ScalarSolve.Solve.Run

/-!
# The secant method

Each step goes to where the line through the last two points meets zero.  The search converges when
the value at the new point or the step to it is within the tolerance.
-/

namespace ScalarSolve.Secant

open Formula

variable {F : Type} [Arith F]

/-- A point with the value of the function there. -/
structure Sighting (F : Type) where
  x : F
  y : F

/-- The point where the line through two others meets zero. -/
def next (p q : Sighting F) : Except (Breakdown F) F :=
  let rise := q.y - p.y
  if Arith.isZero rise then .error (.flatSecant p.x q.x)
  else
    let z := q.x - q.y * (q.x - p.x) / rise
    if Arith.isFinite z then .ok z else .error .secantNotFinite

/-- The search from the last two points, with so many iterations left. -/
def iterate (l : Limits F) (f : PartialMap F) :
    Nat → Sighting F → Sighting F → Iterates F → Run F
  | 0, _, q, xs => xs.exhausted l.maxIterations (.ok q.y)
  | left + 1, p, q, xs =>
    match next p q with
    | .error why => xs.diverged why q.y
    | .ok z =>
      let xs := xs.accept z
      match f z with
      | .error e => xs.undefined e
      | .ok y =>
        if l.reached (Arith.abs y) || l.reached xs.delta then xs.converged y
        else iterate l f left q ⟨z, y⟩ xs

/-- The search once the first seed is known not to be a root; the second one is the first step. -/
def fromSeeds (l : Limits F) (f : PartialMap F) (p : Sighting F) (x : F) : Run F :=
  let xs := (Iterates.start p.x).accept x
  match f x with
  | .error e => xs.undefined e
  | .ok y =>
    if l.reached (Arith.abs y) then xs.converged y
    else iterate l f (l.maxIterations - 1) p ⟨x, y⟩ xs

/-- The search for a root from two seeds. -/
def findRoot (l : Limits F) (f : PartialMap F) (x₀ x₁ : F) : Except (RangeError F) (Run F) := do
  l.validate
  if !(Arith.isFinite x₀ && Arith.isFinite x₁) then .error (.seeds x₀ x₁)
  else
    match f x₀ with
    | .error e => return (Iterates.start x₀).undefined e
    | .ok y =>
      if l.reached (Arith.abs y) then return (Iterates.start x₀).converged y
      else return fromSeeds l f ⟨x₀, y⟩ x₁

def solve (l : Limits F) (f : Curve F) (x₀ x₁ : F) : Except (RangeError F) (Run F) :=
  findRoot l f.eval x₀ x₁

end ScalarSolve.Secant
