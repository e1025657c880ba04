import ScalarSolve.Formula.EvalError
import ScalarSolve.Formula.SyntaxError
import ScalarSolve.Method

/-!
# Failures

A request that makes no sense is refused with the range that it violates.  Running out of iterations
and meeting a point where a formula is undefined are outcomes of a search and no failures.
-/

namespace ScalarSolve

open Formula

/-- The most iterations that a search may be given. -/
def maxIterationLimit : Nat := 10000

/-- The most steps that a scan may take. -/
def maxScanSteps : Nat := 100000

/-- The most samples that a contraction check may take. -/
def maxSamples : Nat := 100000

/-- Why a request is refused before anything is computed. -/
inductive RangeError (F : Type) where
  | derivativeStep (h : F)
  | tolerance (tolerance : F)
  | noIterations
  | iterations (count : Nat)
  | startPoint (x : F)
  | relaxation (factor : F)
  | endpoints (a b : F)
  | seeds (x y : F)
  | unknownMethod (name : String)
  | missingExpression (method : Method)
  | noMethods
  | scanBounds (a b : F)
  | scanOrder (a b : F)
  | scanSteps (count : Nat)
  | contractionBounds (a b : F)
  | contractionSamples (count : Nat)
  /-- A violation in the words of whoever reports it. -/
  | stated (text : String)
deriving DecidableEq, Repr

namespace RangeError

variable {F : Type} [Numeral F]

/-- Two numbers as the ends of an interval. -/
def interval (a b : F) : String := "[" ++ Numeral.text a ++ ", " ++ Numeral.text b ++ "]"

/-- The violated condition and what was given instead. -/
def detail : RangeError F → String
  | derivativeStep h => "derivative step must be finite and positive, got " ++ Numeral.text h
  | tolerance t => "tolerance must be finite and positive, got " ++ Numeral.text t
  | noIterations => "maxIter must be >= 1"
  | iterations n =>
      "maxIter " ++ toString n ++ " exceeds the limit of " ++ toString maxIterationLimit
  | startPoint x => "x0 must be finite, got " ++ Numeral.text x
  | relaxation r => "relax must be in (0, 1], got " ++ Numeral.text r
  | endpoints a b => "bisection endpoints must be finite, got " ++ interval a b
  | seeds x y =>
      "secant seeds must be finite, got x0 = " ++ Numeral.text x ++ ", x1 = " ++ Numeral.text y
  | unknownMethod name => "unknown method '" ++ name ++ "'"
  | missingExpression m =>
      "method '" ++ m.name ++ "' requires expression '" ++ m.required ++ "'"
  | noMethods => "no methods requested"
  | scanBounds a b => "bracket bounds must be finite, got " ++ interval a b
  | scanOrder a b => "bracket requires a < b, got " ++ interval a b
  | scanSteps n => "steps must be in 1..=" ++ toString maxScanSteps ++ ", got " ++ toString n
  | contractionBounds a b =>
      "contraction check needs distinct finite bounds, got " ++ interval a b
  | contractionSamples n =>
      "samples must be in 2..=" ++ toString maxSamples ++ ", got " ++ toString n
  | stated text => text

def message (e : RangeError F) : String := "Invalid range: " ++ e.detail

end RangeError

/-- Why there is no answer. -/
inductive Failure (F : Type) where
  | range (e : RangeError F)
  /-- No map around the point is contractive. -/
  | noStableRegion (x : F)
  | undefined (e : EvalError F)
  | malformed (e : SyntaxError F)
deriving DecidableEq, Repr

namespace Failure

variable {F : Type} [Numeral F]

def message : Failure F → String
  | range e => e.message
  | noStableRegion x => "No stable region found near x0 = " ++ Numeral.text x
  | undefined e => e.message
  | malformed e => e.message

end Failure

end ScalarSolve
