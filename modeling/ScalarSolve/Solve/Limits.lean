import ScalarSolve.Failure

/-! # Limits of a search -/

namespace ScalarSolve

/-- When a search may stop: how close is close enough, and how many iterations it has. -/
structure Limits (F : Type) where
  tolerance : F
  maxIterations : Nat
deriving DecidableEq, Repr

namespace Limits

variable {F : Type} [Arith F]

def default : Limits F := ⟨Arith.ofDecimal 1 (-10), 100⟩

/-- The tolerance is finite and positive, and the number of iterations is in range. -/
def validate (l : Limits F) : Except (RangeError F) Unit :=
  if !Arith.isStep l.tolerance then .error (.tolerance l.tolerance)
  else if l.maxIterations = 0 then .error .noIterations
  else if maxIterationLimit < l.maxIterations then .error (.iterations l.maxIterations)
  else .ok ()

/-- Limits that have been validated. -/
def checked (tolerance : F) (maxIterations : Nat) : Except (RangeError F) (Limits F) := do
  let l := ⟨tolerance, maxIterations⟩
  validate l
  return l

/-- Whether a residual or a step is close enough to zero. -/
def reached (l : Limits F) (d : F) : Bool := Arith.le d l.tolerance

end Limits

end ScalarSolve
