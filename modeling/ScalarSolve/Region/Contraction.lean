import ScalarSolve.Curve
import ScalarSolve.Derivative
import ScalarSolve.Region.Grid

/-!
# Contraction

A map is contractive on an interval if its slope is less than one in magnitude.  The check samples
the slope by central differences and reports the steepest one.
-/

namespace ScalarSolve

open Formula

/-- What a contraction check has found. -/
structure Contraction (F : Type) where
  /-- The greatest magnitude of a slope, if any sample has one. -/
  steepest : Option F
  /-- The samples that have a slope. -/
  evaluated : Nat
  /-- The samples that have none. -/
  skipped : Nat
deriving DecidableEq, Repr

namespace Contraction

variable {F : Type} [Arith F]

/-- Whether every slope found is less than one; unknown if there is none. -/
def contractive? (c : Contraction F) : Option Bool := c.steepest.map (Arith.lt · Arith.one)

def isContractive (c : Contraction F) : Bool := c.contractive? == some true

def isIndeterminate (c : Contraction F) : Bool := c.contractive?.isNone

/-- One more sample. -/
def step (g : PartialMap F) (c : Contraction F) (x : F) : Contraction F :=
  match Derivative.atDefaultStep g x with
  | .error _ => { c with skipped := c.skipped + 1 }
  | .ok d =>
    let steepest := match c.steepest with
      | none => Arith.abs d
      | some m => Arith.max m (Arith.abs d)
    { c with steepest := some steepest, evaluated := c.evaluated + 1 }

/-- The check on a list of points. -/
def along (g : PartialMap F) (xs : List F) : Contraction F :=
  xs.foldl (step g) ⟨none, 0, 0⟩

/-- The check on so many points of `[lo, hi]`, its ends among them. -/
def sample (g : PartialMap F) (lo hi : F) : Nat → Contraction F
  | 0 => along g []
  | last + 1 => along g (Grid.points lo hi last)

/-- The check of `g` between two distinct bounds in either order. -/
def check (g : Curve F) (a b : F) (samples : Nat) :
    Except (RangeError F) (Contraction F) :=
  if !(Arith.isFinite a && Arith.isFinite b) || Arith.eq a b then .error (.contractionBounds a b)
  else if samples < 2 ∨ maxSamples < samples then .error (.contractionSamples samples)
  else .ok (sample g.eval (Arith.min a b) (Arith.max a b) samples)

end Contraction

end ScalarSolve
