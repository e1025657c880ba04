import ScalarSolve.Derivative

/-!
# Runs

What a search leaves behind: the points it went through, the residual at the last of them, and how
it ended.  A search that breaks down or runs out of iterations has an outcome like any other.
-/

namespace ScalarSolve

open Formula

/-- Why a search could not go on. -/
inductive Breakdown (F : Type) where
  | undefined (e : EvalError F)
  | flatDerivative (x : F)
  | newtonNotFinite
  | runaway
  | noSignChange (lo hi : F)
  | flatSecant (x y : F)
  | secantNotFinite
deriving DecidableEq, Repr

namespace Breakdown

variable {F : Type} [Numeral F]

def message : Breakdown F → String
  | undefined e => "function undefined at x = " ++ Numeral.text e.point ++ ": " ++ e.message
  | flatDerivative x => "zero or undefined derivative at x = " ++ Numeral.text x
  | newtonNotFinite => "Newton iteration produced non-finite value"
  | runaway => "fixed-point iterates diverged"
  | noSignChange lo hi => "no sign change on " ++ RangeError.interval lo hi
  | flatSecant x y =>
      "flat secant between x = " ++ Numeral.text x ++ " and x = " ++ Numeral.text y
  | secantNotFinite => "secant iteration produced non-finite value"

end Breakdown

/-- How a search ended. -/
inductive Termination (F : Type) where
  | converged
  /-- All of so many iterations were used up. -/
  | exhausted (limit : Nat)
  | diverged (why : Breakdown F)
deriving DecidableEq, Repr

namespace Termination

variable {F : Type}

def isConverged : Termination F → Bool
  | converged => true
  | exhausted _ | diverged _ => false

/-- What is said about a search that has not converged. -/
def message? [Numeral F] : Termination F → Option String
  | converged => none
  | exhausted limit =>
      some ("maximum iterations (" ++ toString limit ++ ") reached without convergence")
  | diverged why => some why.message

end Termination

/-- The outcome of a search. -/
structure Run (F : Type) where
  /-- The last point. -/
  root : F
  /-- The value of the function at the root, undefined if it has none there. -/
  residual : F
  /-- The distance between the last two points, zero if there is only one. -/
  delta : F
  /-- The number of points after the first. -/
  iterations : Nat
  /-- Every point from the first on. -/
  trace : List F
  termination : Termination F
deriving DecidableEq, Repr

namespace Run

variable {F : Type}

def converged (r : Run F) : Bool := r.termination.isConverged

def message? [Numeral F] (r : Run F) : Option String := r.termination.message?

end Run

/-- The points of a search so far. -/
structure Iterates (F : Type) where
  last : F
  /-- The points before the last, latest first. -/
  earlier : List F
  /-- The length of the last step. -/
  delta : F

namespace Iterates

variable {F : Type}

/-- The number of points after the first. -/
def count (xs : Iterates F) : Nat := xs.earlier.length

/-- The points from the first on. -/
def trace (xs : Iterates F) : List F := (xs.last :: xs.earlier).reverse

@[simp] theorem length_trace (xs : Iterates F) : xs.trace.length = xs.count + 1 := by
  simp [trace, count]

def finish (xs : Iterates F) (how : Termination F) (residual : F) : Run F :=
  { root := xs.last, residual, delta := xs.delta, iterations := xs.count, trace := xs.trace,
    termination := how }

def converged (xs : Iterates F) (residual : F) : Run F := xs.finish .converged residual

def diverged (xs : Iterates F) (why : Breakdown F) (residual : F) : Run F :=
  xs.finish (.diverged why) residual

variable [Arith F]

def start (x : F) : Iterates F := ⟨x, [], Arith.zero⟩

/-- A step to the next point. -/
def accept (xs : Iterates F) (next : F) : Iterates F :=
  ⟨next, xs.last :: xs.earlier, Arith.abs (next - xs.last)⟩

@[simp] theorem trace_start (x : F) : (start x).trace = [x] := rfl

@[simp] theorem last_start (x : F) : (start x).last = x := rfl

@[simp] theorem trace_accept (xs : Iterates F) (next : F) :
    (xs.accept next).trace = xs.trace ++ [next] := by
  simp [trace, accept]

@[simp] theorem last_accept (xs : Iterates F) (next : F) : (xs.accept next).last = next := rfl

@[simp] theorem delta_accept (xs : Iterates F) (next : F) :
    (xs.accept next).delta = Arith.abs (next - xs.last) := rfl

@[simp] theorem count_accept (xs : Iterates F) (next : F) :
    (xs.accept next).count = xs.count + 1 := rfl

/-- The function is undefined at the last point. -/
def undefined (xs : Iterates F) (e : EvalError F) : Run F :=
  xs.diverged (.undefined e) Arith.nan

/-- The residual at the last point decides between convergence and breakdown. -/
def settle (xs : Iterates F) (residual : Except (EvalError F) F) : Run F :=
  match residual with
  | .ok r => xs.converged r
  | .error e => xs.undefined e

/-- No iterations are left. -/
def exhausted (xs : Iterates F) (limit : Nat) (residual : Except (EvalError F) F) : Run F :=
  xs.finish (.exhausted limit) (match residual with | .ok r => r | .error _ => Arith.nan)

end Iterates

end ScalarSolve
