import ScalarSolve.Expression
import ScalarSolve.Region.Bracket
import ScalarSolve.Region.Suggestion
import ScalarSolve.Service.Fault
import ScalarSolve.Service.Request
import ScalarSolve.Settings.Basic
import ScalarSolve.Solve.Comparison

/-!
# Answering requests

From a request to its result.  Names are checked before formulas, formulas before limits, and all of
them before anything is computed.  What is computed is computed apart, and a computation that is
stopped there is answered for as a failure of the service.
-/

namespace ScalarSolve.Service

def ofRange {α : Type} (r : Except (RangeError Float) α) : Except Fault α :=
  r.mapError fun e ↦ .failure (.range e)

/-- A computation that is stopped by the stack has no result and no failure of its own. -/
def ofStack {α : Type} (r : Except StackFault α) : Except Fault α :=
  r.mapError fun _ ↦ .internal "task panicked"

def isBlankText (text : String) : Bool := text.toList.all Text.isBlank

/-- The formula of an optional text. -/
def optional (compile : String → Except (Formula.SyntaxError Float) (Expression Float))
    (text : String) : Except Fault (Option (Expression Float)) :=
  if isBlankText text then .ok none
  else ((compile text).map some).mapError fun e ↦ .failure (.malformed e)

/-- The function of a request may be given as an equation. -/
def function? (text : String) : Except Fault (Option (Expression Float)) :=
  optional Expression.compileEquation text

def map? (text : String) : Except Fault (Option (Expression Float)) :=
  optional Expression.compile text

def required (name : String) (e : Option (Expression Float)) : Except Fault (Expression Float) :=
  match e with
  | some e => .ok e
  | none => .error (.expressionRequired name)

/-- Limits within those of the service. -/
def limits (s : Settings) (tolerance : Float) (maxIterations : Nat) :
    Except Fault (Limits Float) :=
  if s.maxIterationsLimit < maxIterations then
    .error (.overLimit maxIterations s.maxIterationsLimit)
  else ofRange (Limits.checked tolerance maxIterations)

/-- The problem that a request states. -/
def problem (s : Settings) (f g : String) (x₀ x₁ tolerance : Float) (maxIterations : Nat) :
    Except Fault (Problem Float) := do
  let f ← function? f
  let g ← map? g
  let l ← limits s tolerance maxIterations
  let f ← ofStack (f.mapM Expression.curve)
  let g ← ofStack (g.mapM Expression.curve)
  return { Problem.start x₀ with f, g, x₁, limits := l }

def solve (s : Settings) (r : SolveRequest) : Except Fault (Run Float) := do
  let m ← ofRange (Method.named (Text.trim r.method))
  let p ← problem s r.f r.g r.x₀ r.x₁ r.tolerance r.maxIterations
  let p := { p with
    relax := r.relax
    derivative := if r.numericDerivative then .numeric none else .analytic }
  ofRange (p.check [m])
  ofRange (m.run p)

def compare (s : Settings) (r : CompareRequest) : Except Fault (List (Row Float)) := do
  let ms ← ofRange (r.methods.mapM fun name ↦ Method.named (Text.trim name))
  let p ← problem s r.f r.g r.x₀ r.x₁ r.tolerance r.maxIterations
  ofRange (p.compare ms)

def bracket (r : BracketRequest) : Except Fault (Scan Float) := do
  let f ← required "f" (← function? r.f)
  ofRange (Scan.bracket (← ofStack f.curve) r.a r.b r.steps)

def check (r : CheckRequest) : Except Fault (Contraction Float) := do
  let g ← required "g" (← map? r.g)
  ofRange (Contraction.check (← ofStack g.curve) r.a r.b r.samples)

def suggest (r : SuggestRequest) : Except Fault (Suggestion Float) := do
  let f ← required "f" (← function? r.f)
  (Suggestion.search .default (← ofStack f.family) r.x₀).mapError .failure

/-- The service is ready if formulas evaluate to what they should. -/
def isReady : Bool :=
  match (Expression.compile "x^2 - 2" : Except _ (Expression Float)) with
  | .ok f =>
    match f.eval 2 with
    | .ok y => Arith.eq y 2
    | .error _ => false
  | .error _ => false

end ScalarSolve.Service
