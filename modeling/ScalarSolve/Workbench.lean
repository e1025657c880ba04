import ScalarSolve.Expression
import ScalarSolve.Region.Bracket
import ScalarSolve.Region.Suggestion
import ScalarSolve.Solve.Comparison

/-!
# Workbenches

A workbench holds a problem and the brackets of the last scan while a user goes from one step to the
next.  A step that fails leaves the workbench as it was.  The formulas are held as expressions; a
step takes their curves if it searches or scans.
-/

namespace ScalarSolve

/-- What a step needs and the workbench does not have. -/
inductive Missing where
  | f
  | g
  | interval
deriving DecidableEq, Repr

def Missing.message : Missing → String
  | f => "f is not set"
  | g => "g is not set"
  | interval => "interval is not set"

/-- Why a step fails. -/
inductive Setback (F : Type) where
  | missing (what : Missing)
  | failure (e : Failure F)
  /-- An evaluation is stopped by the stack. -/
  | fault (why : StackFault)
deriving DecidableEq, Repr

/-- A problem in the making. -/
structure Workbench (F : Type) [Arith F] where
  f : Option (Expression F)
  g : Option (Expression F)
  /-- The problem without its curves. -/
  problem : Problem F
  brackets : Array (Bracket F)

/-- A refined bracket: the run in it, and whether its root stayed inside. -/
structure Refinement (F : Type) where
  run : Run F
  contained : Bool

namespace Workbench

variable {F : Type} [Arith F]

/-- The workbench before the first step. -/
def empty : Workbench F := ⟨none, none, .start Arith.zero, #[]⟩

/-- A step that answers something. -/
abbrev Step (F : Type) [Arith F] := StateT (Workbench F) (Except (Setback F))

namespace Step

def ofRange {α : Type} (r : Except (RangeError F) α) : Step F α :=
  match r with
  | .ok a => return a
  | .error e => throw (.failure (.range e))

def ofFailure {α : Type} (r : Except (Failure F) α) : Step F α :=
  match r with
  | .ok a => return a
  | .error e => throw (.failure e)

def ofStack {α : Type} (r : Except StackFault α) : Step F α :=
  match r with
  | .ok a => return a
  | .error why => throw (.fault why)

/-- A change of the problem. -/
def adjust (change : Problem F → Problem F) : Step F Unit :=
  modify fun w ↦ { w with problem := change w.problem }

def needF : Step F (Expression F) := do
  match (← get).f with
  | some f => return f
  | none => throw (.missing .f)

def needG : Step F (Expression F) := do
  match (← get).g with
  | some g => return g
  | none => throw (.missing .g)

def setF (f : Except (Formula.SyntaxError F) (Expression F)) : Step F (Expression F) := do
  let f ← ofFailure (f.mapError .malformed)
  modify fun w ↦ { w with f := some f }
  return f

def setG (g : Except (Formula.SyntaxError F) (Expression F)) : Step F (Expression F) := do
  let g ← ofFailure (g.mapError .malformed)
  modify fun w ↦ { w with g := some g }
  return g

/-- The residual map of one of the expressions becomes `g`. -/
def mapInto [Numeral F] (α : F) (e : Step F (Expression F)) : Step F (Expression F) := do
  let g := (← e).residualMap α
  modify fun w ↦ { w with g := some g }
  return g

/-- New points, where they are given. -/
def moveTo (x₀ x₁ : Option F) : Step F (F × F) := do
  adjust fun p ↦ { p with x₀ := x₀.getD p.x₀, x₁ := x₁.getD p.x₁ }
  let p := (← get).problem
  return (p.x₀, p.x₁)

def setLimits (tolerance : F) (maxIterations : Nat) : Step F (Limits F) := do
  let l ← ofRange (Limits.checked tolerance maxIterations)
  adjust fun p ↦ { p with limits := l }
  return l

def setRelax (r : F) : Step F F := do
  adjust fun p ↦ { p with relax := r }
  return r

def setDerivative (mode : DerivativeMode F) : Step F Unit :=
  adjust fun p ↦ { p with derivative := mode }

/-- The value of one of the expressions, by default at the starting point. -/
def evaluate (x : Option F) (e : Step F (Expression F)) : Step F F := do
  let x := x.getD (← get).problem.x₀
  match (← e).eval x with
  | .ok y => return y
  | .error (.undefined e) => throw (.failure (.undefined e))
  | .error (.fault why) => throw (.fault why)

/-- The curve of one of the expressions. -/
def curve (e : Step F (Expression F)) : Step F (Curve F) := do ofStack (← e).curve

/-- The problem with the curves that some methods may use. -/
def stated (methods : List Method) : Step F (Problem F) := do
  let w ← get
  let f ← ofStack (w.f.mapM Expression.curve)
  let g ← ofStack ((if methods.contains .fixed then w.g else none).mapM Expression.curve)
  return { w.problem with f, g }

/-- A scan of `f`, whose brackets are kept. -/
def scan (a b : F) (steps : Nat) : Step F (Scan F) := do
  let s ← ofRange (Scan.bracket (← curve needF) a b steps)
  modify fun w ↦ { w with brackets := s.brackets }
  return s

/-- The ends of a bracket become the points. -/
def pick (index : Nat) : Step F (F × F) := do
  match (← get).brackets[index]? with
  | some i => moveTo (some i.a) (some i.b)
  | none => throw (.missing .interval)

/-- A run in each of the brackets. -/
def refine (method : String) : Step F (List (Except (RangeError F) (Refinement F))) := do
  let m ← ofRange (Method.named method)
  let p ← stated [m]
  return (← get).brackets.toList.map fun i ↦
    (m.run { p with x₀ := i.a, x₁ := i.b }).map fun r ↦ ⟨r, i.contains r.root⟩

/-- A suggestion for `f`, whose map and starting point are taken over. -/
def suggest [Numeral F] : Step F (Suggestion F) := do
  let f ← needF
  let s ← ofFailure (Suggestion.search .default (← ofStack f.family) (← get).problem.x₀)
  modify fun w ↦ { w with g := some (f.residualMap s.α) }
  adjust fun p ↦ { p with x₀ := s.start }
  return s

/-- A contraction check of `g`. -/
def check (a b : F) (samples : Nat) : Step F (Contraction F) := do
  ofRange (Contraction.check (← curve needG) a b samples)

/-- A run of a method, whose root may become the starting point. -/
def solve (method : String) (advance : Bool) : Step F (Run F) := do
  let m ← ofRange (Method.named method)
  let r ← ofRange (m.run (← stated [m]))
  if advance then adjust fun p ↦ { p with x₀ := r.root }
  return r

/-- Several methods side by side. -/
def compare (methods : List String) : Step F (List (Row F)) := do
  let ms ← ofRange (methods.mapM Method.named)
  ofRange ((← stated ms).compare ms)

end Step

end Workbench

end ScalarSolve
