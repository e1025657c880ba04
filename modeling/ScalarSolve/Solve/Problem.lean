import ScalarSolve.Solve.Bisection
import ScalarSolve.Solve.FixedPoint
import ScalarSolve.Solve.Newton
import ScalarSolve.Solve.Secant

/-!
# Problems

A problem is stated once for all methods; each of them takes from it what it needs.
-/

namespace ScalarSolve

/-- What a method is run on. -/
structure Problem (F : Type) [Arith F] where
  /-- The function whose root is searched for. -/
  f : Option (Curve F)
  /-- The map whose fixed point is searched for. -/
  g : Option (Curve F)
  /-- The starting point. -/
  x₀ : F
  /-- The other end or seed. -/
  x₁ : F
  limits : Limits F
  /-- The weight of the image in a fixed-point step. -/
  relax : F
  derivative : DerivativeMode F

namespace Problem

variable {F : Type} [Arith F]

/-- The problem with nothing stated but a starting point. -/
def start (x : F) : Problem F :=
  { f := none, g := none, x₀ := x, x₁ := Arith.zero, limits := .default, relax := Arith.one,
    derivative := .analytic }

/-- The curve that a method works on. -/
def required? (p : Problem F) : Method → Option (Curve F)
  | .fixed => p.g
  | .newton | .bisection | .secant => p.f

/-- Every method has its curve. -/
def check (p : Problem F) (methods : List Method) : Except (RangeError F) Unit :=
  match methods.find? fun m ↦ (p.required? m).isNone with
  | some m => .error (.missingExpression m)
  | none => .ok ()

end Problem

namespace Method

variable {F : Type} [Arith F]

/-- The method named, or the refusal of an unknown name. -/
def named (name : String) : Except (RangeError F) Method :=
  match ofName? name with
  | some m => .ok m
  | none => .error (.unknownMethod name)

/-- The run of a method on a problem. -/
def run (m : Method) (p : Problem F) : Except (RangeError F) (Run F) :=
  match p.required? m with
  | none => .error (.missingExpression m)
  | some e =>
    match m with
    | newton => Newton.solve p.limits p.derivative e p.x₀
    | fixed => FixedPoint.solve p.limits p.relax e p.f p.x₀
    | bisection => Bisection.solve p.limits e p.x₀ p.x₁
    | secant => Secant.solve p.limits e p.x₀ p.x₁

end Method

end ScalarSolve
