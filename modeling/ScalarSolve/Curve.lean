import ScalarSolve.Formula.EvalError

/-!
# Curves

What is searched and scanned: a function of a number that has a value or is undefined at every
point, with its slope.  Which formula it comes from, and what evaluates that, plays no part there.
-/

namespace ScalarSolve

open Formula

/-- A function of a number that may be undefined at some points. -/
abbrev PartialMap (F : Type) := F → Except (EvalError F) F

/-- A function with its exact slope.  It is undefined wherever the point is not finite. -/
structure Curve (F : Type) [Arith F] where
  eval : PartialMap F
  slope : PartialMap F
  eval_of_not_isFinite : ∀ x, ¬ Arith.isFinite x → eval x = .error (.nonFinite x)

/-- A curve has values at finite points only. -/
theorem Curve.isFinite_of_eval {F : Type} [Arith F] {f : Curve F} {x y : F}
    (h : f.eval x = .ok y) : Arith.isFinite x := by
  cases finite : Arith.isFinite x with
  | true => rfl
  | false =>
      rw [f.eval_of_not_isFinite x (Bool.eq_false_iff.mp finite)] at h
      cases h

/-- A curve `f` with the maps `x - α · f(x)`, which have its roots as fixed points. -/
structure Family (F : Type) [Arith F] extends Curve F where
  residualMap : (α : F) → PartialMap F

end ScalarSolve
