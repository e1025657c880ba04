import ScalarSolve.Curve
import ScalarSolve.Solve.Limits
import ScalarSolve.Solve.Run

/-!
# Bisection

An interval whose ends have values of different sign is halved again and again.  The search
converges when the value at the midpoint or half the width is within the tolerance.
-/

namespace ScalarSolve

open Formula

/-- An interval with the sign change of a function in it. -/
structure Enclosure (F : Type) where
  lo : F
  hi : F
  /-- The value at the lower end. -/
  valueLo : F
deriving DecidableEq, Repr

namespace Enclosure

variable {F : Type} [Arith F]

def half (e : Enclosure F) : F := Arith.half * (e.hi - e.lo)

def mid (e : Enclosure F) : F := e.lo + e.half

/-- The half with the sign change, by the value at the midpoint. -/
def narrow (e : Enclosure F) (valueMid : F) : Enclosure F :=
  if Arith.eq (Arith.signum e.valueLo) (Arith.signum valueMid) then ⟨e.mid, e.hi, valueMid⟩
  else ⟨e.lo, e.mid, e.valueLo⟩

/-- The interval between two ends in either order, with their values. -/
def between (a b valueA valueB : F) : Enclosure F :=
  if Arith.lt a b then ⟨a, b, valueA⟩ else ⟨b, a, valueB⟩

end Enclosure

namespace Bisection

variable {F : Type} [Arith F]

/-- The search in an enclosure, with so many iterations left. -/
def iterate (l : Limits F) (f : PartialMap F) : Nat → Enclosure F → Iterates F → Run F
  | 0, _, xs => xs.exhausted l.maxIterations (f xs.last)
  | left + 1, e, xs =>
    match f e.mid with
    | .error err => xs.undefined err
    | .ok y =>
      let xs := xs.accept e.mid
      if l.reached (Arith.abs y) || l.reached e.half then xs.converged y
      else iterate l f left (e.narrow y) xs

/-- The search from the end `b`, once the value at the end `a` is known not to be zero. -/
def fromEnds (l : Limits F) (f : PartialMap F) (a b valueA : F) : Run F :=
  let xs := Iterates.start a
  match f b with
  | .error e => xs.diverged (.undefined e) valueA
  | .ok valueB =>
    if Arith.isZero valueB then (xs.accept b).converged valueB
    else if Arith.eq (Arith.signum valueA) (Arith.signum valueB) then
      xs.diverged (.noSignChange (Arith.min a b) (Arith.max a b)) valueA
    else iterate l f l.maxIterations (.between a b valueA valueB) xs

/-- The search for a root between two ends in either order. -/
def findRoot (l : Limits F) (f : PartialMap F) (a b : F) : Except (RangeError F) (Run F) := do
  l.validate
  if !(Arith.isFinite a && Arith.isFinite b) then .error (.endpoints a b)
  else
    match f a with
    | .error e => return (Iterates.start a).undefined e
    | .ok valueA =>
      if Arith.isZero valueA then return (Iterates.start a).converged valueA
      else return fromEnds l f a b valueA

def solve (l : Limits F) (f : Curve F) (a b : F) : Except (RangeError F) (Run F) :=
  findRoot l f.eval a b

end Bisection

end ScalarSolve
