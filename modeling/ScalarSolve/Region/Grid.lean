import ScalarSolve.Arith

/-! # Uniform grids -/

namespace ScalarSolve.Grid

variable {F : Type} [Arith F]

/-- The `i`-th of the points that cut `[lo, hi]` into `steps` parts; the last is `hi` itself. -/
def point (lo hi : F) (steps i : Nat) : F :=
  if i = steps then hi else lo + (hi - lo) * Arith.ofNat i / Arith.ofNat steps

/-- All of the points, one more than there are parts. -/
def points (lo hi : F) (steps : Nat) : List F :=
  (List.range (steps + 1)).map (point lo hi steps)

@[simp] theorem length_points (lo hi : F) (steps : Nat) :
    (points lo hi steps).length = steps + 1 := by
  simp [points]

@[simp] theorem point_last (lo hi : F) (steps : Nat) : point lo hi steps steps = hi := by
  simp [point]

end ScalarSolve.Grid
