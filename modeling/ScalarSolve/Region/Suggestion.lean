import ScalarSolve.Region.Contraction

/-!
# Suggested maps and starting points

For a function `f` the map `x - α · f(x)` has the roots of `f` as fixed points.  The search takes
slopes of `f` around a point for `1 / α`, accepts the first map that is contractive around it,
widens the interval while the probes stay contractive, and picks the flattest starting point inside.
-/

namespace ScalarSolve

open Formula

/-- How hard to search. -/
structure Effort (F : Type) where
  /-- The first radius, relative to the magnitude of the point but at least to one. -/
  initialRadius : F
  /-- How many distances from the point are tried for slopes. -/
  slopeOffsets : Nat
  /-- How often a radius may be doubled. -/
  maxExpansions : Nat
  /-- How often the step that failed is halved. -/
  refineSteps : Nat
  /-- The samples of one contraction probe. -/
  probeSamples : Nat
  /-- The points between the ends that are tried as starting points. -/
  suggestSamples : Nat
deriving DecidableEq, Repr

/-- A map, an interval on which it is contractive, and where to start. -/
structure Suggestion (F : Type) where
  start : F
  lo : F
  hi : F
  α : F
deriving DecidableEq, Repr

namespace Effort

variable {F : Type} [Arith F]

def default : Effort F :=
  { initialRadius := Arith.ofDecimal 1 (-3), slopeOffsets := 8, maxExpansions := 40,
    refineSteps := 30, probeSamples := 16, suggestSamples := 64 }

/-- The first radius around a point. -/
def radius (effort : Effort F) (x : F) : F :=
  effort.initialRadius * Arith.max (Arith.abs x) Arith.one

end Effort

namespace Suggestion

variable {F : Type} [Arith F]

/-- The point, and pairs of points at doubling distances from it. -/
def slopePoints (x r : F) (offsets : Nat) : List F :=
  x :: (List.range offsets).flatMap fun k ↦
    let offset := r * Arith.ofDecimal (1 <<< k) 0
    [x + offset, x - offset]

/-- The slope at a point, exact if the dual pass succeeds. -/
def slope (f : Curve F) (x : F) : Except (EvalError F) F :=
  match f.slope x with
  | .ok d => .ok d
  | .error _ => Derivative.atDefaultStep f.eval x

/-- The slopes that exist and are not zero. -/
def slopes (f : Curve F) (points : List F) : List F :=
  points.filterMap fun x ↦
    match slope f x with
    | .ok d => if Arith.isZero d then none else some d
    | .error _ => none

/-- For each slope its reciprocal and half of it, where they are finite. -/
def candidates (slopes : List F) : List F :=
  slopes.flatMap fun d ↦ [Arith.one / d, Arith.half / d].filter Arith.isFinite

/-- Every probe in the interval has a slope, of magnitude less than one. -/
def isStable (g : PartialMap F) (lo hi : F) (samples : Nat) : Bool :=
  let c := Contraction.sample g lo hi samples
  c.skipped == 0 && c.isContractive

/-- The shell between two radii on one side of a point is stable. -/
def shellStable (g : PartialMap F) (samples : Nat) (x side good bad : F) : Bool :=
  let p := x + side * good
  let q := x + side * bad
  Arith.isFinite q && isStable g (Arith.min p q) (Arith.max p q) samples

/-- The greatest radius found between a good and a bad one by halving. -/
def refine (stable : F → F → Bool) : Nat → F → F → F
  | 0, good, _ => good
  | left + 1, good, bad =>
    let mid := Arith.half * (good + bad)
    if stable good mid then refine stable left mid bad else refine stable left good mid

/-- The greatest radius found by doubling a good one, and by halving the first step that fails. -/
def expand (stable : F → F → Bool) (refineSteps : Nat) : Nat → F → F
  | 0, good => good
  | left + 1, good =>
    let next := good * Arith.ofNat 2
    if stable good next then expand stable refineSteps left next
    else refine stable refineSteps good next

/-- The radii below and above a point within which the map is stable, if the first one is. -/
def stableRadii? (effort : Effort F) (g : PartialMap F) (x : F) : Option (F × F) :=
  let r := effort.radius x
  if isStable g (x - r) (x + r) effort.probeSamples then
    let reach (side : F) : F :=
      expand (shellStable g effort.probeSamples x side) effort.refineSteps effort.maxExpansions r
    some (reach (-Arith.one), reach Arith.one)
  else none

/-- The magnitude of the slope of a map, infinite where it has none. -/
def steepness (g : PartialMap F) (x : F) : F :=
  match Derivative.atDefaultStep g x with
  | .ok d => Arith.abs d
  | .error _ => Arith.infinity

/-- The points strictly inside an interval that cut it into equal parts. -/
def interior (lo hi : F) (count : Nat) : List F :=
  (List.range count).map fun i ↦
    lo + (hi - lo) * Arith.ofNat (i + 1) / (Arith.ofNat count + Arith.one)

/-- The flattest of some points, the first one on a tie. -/
def flattest (g : PartialMap F) (x : F) (others : List F) : F :=
  (others.foldl (fun (best : F × F) y ↦
    let s := steepness g y
    if Arith.lt s best.2 then (y, s) else best) (x, steepness g x)).1

/-- The suggestion for one candidate, if its map is stable around the point. -/
def ofCandidate? (effort : Effort F) (f : Family F) (x α : F) :
    Option (Suggestion F) :=
  let g := f.residualMap α
  (stableRadii? effort g x).map fun (below, above) ↦
    let lo := x - below
    let hi := x + above
    { start := flattest g x (interior lo hi effort.suggestSamples), lo, hi, α }

/-- The first stable candidate around a point. -/
def search (effort : Effort F) (f : Family F) (x : F) :
    Except (Failure F) (Suggestion F) :=
  if !Arith.isFinite x then .error (.range (.startPoint x))
  else
    let points := slopePoints x (effort.radius x) effort.slopeOffsets
    match (candidates (slopes f.toCurve points)).findSome? (ofCandidate? effort f x) with
    | some s => .ok s
    | none => .error (.noStableRegion x)

end Suggestion

end ScalarSolve
