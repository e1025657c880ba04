import ScalarSolve.Curve
import ScalarSolve.Derivative
import ScalarSolve.Region.Grid

/-!
# Brackets

A scan evaluates a function on a uniform grid and reports the parts of the grid with a root or a
sign change between neighbours.  Points where the function is undefined are gaps, and no bracket
spans one.
-/

namespace ScalarSolve

open Formula

/-- A point of a graph. -/
structure Sample (F : Type) where
  x : F
  y : F
deriving DecidableEq, Repr

/-- A part of the grid, with the values at its ends. -/
structure Bracket (F : Type) where
  a : F
  b : F
  fa : F
  fb : F
deriving DecidableEq, Repr

namespace Bracket

variable {F : Type} [Arith F]

def width (i : Bracket F) : F := i.b - i.a

def contains (i : Bracket F) (x : F) : Bool := Arith.le i.a x && Arith.le x i.b

/-- A zero at either end, or values of different sign. -/
def crosses (fa fb : F) : Bool :=
  Arith.isZero fa || Arith.isZero fb || Arith.isNegative fa != Arith.isNegative fb

/-- The bracket between two neighbouring samples, if there is one. -/
def between? (p q : Sample F) : Option (Bracket F) :=
  if crosses p.y q.y then some ⟨p.x, q.x, p.y, q.y⟩ else none

end Bracket

/-- What a scan has found. -/
structure Scan (F : Type) where
  brackets : Array (Bracket F)
  samples : Array (Sample F)
  gaps : Nat
deriving DecidableEq, Repr

namespace Scan

variable {F : Type} [Arith F]

def empty : Scan F := ⟨#[], #[], 0⟩

/-- One more point of the grid; the sample before it is known unless there is a gap. -/
def step (f : PartialMap F) (state : Scan F × Option (Sample F)) (x : F) :
    Scan F × Option (Sample F) :=
  let (s, previous) := state
  match f x with
  | .error _ => ({ s with gaps := s.gaps + 1 }, none)
  | .ok y =>
    let here : Sample F := ⟨x, y⟩
    let brackets := match previous.bind (Bracket.between? · here) with
      | some b => s.brackets.push b
      | none => s.brackets
    ({ s with brackets, samples := s.samples.push here }, some here)

/-- The scan of a list of points in order. -/
def along (f : PartialMap F) (xs : List F) : Scan F :=
  (xs.foldl (step f) (empty, none)).1

/-- The scan of `f` on a grid over `[a, b]`. -/
def bracket (f : Curve F) (a b : F) (steps : Nat) : Except (RangeError F) (Scan F) :=
  if !(Arith.isFinite a && Arith.isFinite b) then .error (.scanBounds a b)
  else if Arith.le b a then .error (.scanOrder a b)
  else if steps = 0 ∨ maxScanSteps < steps then .error (.scanSteps steps)
  else .ok (along f.eval (Grid.points a b steps))

end Scan

end ScalarSolve
