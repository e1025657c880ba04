import ScalarSolve.Arith.Double
import ScalarSolve.Expression
import ScalarSolve.Proofs.Result

/-!
# Curves of expressions

The curve of an expression is its evaluation without the stack.  An expression whose program fits
has a curve, and the machine has the values and the slopes of the curve; the same holds of the maps
`x - α · f(x)` around it.
-/

namespace ScalarSolve

open Formula

namespace Expression

variable {F : Type} [Arith F]

theorem curve_of_fits {e : Expression F} (fits : e.program.Fits) :
    e.curve = .ok (e.curveOfFits fits) := dif_pos fits

/-- A text compiles, and its curve is `f`. -/
def Draws (text : String) (f : Curve F) : Prop :=
  ∃ e : Expression F, compile text = .ok e ∧ e.curve = .ok f

/-- A curve has the values and the slopes of the expression that it comes from. -/
theorem eval_of_curve {e : Expression F} {f : Curve F} (h : e.curve = .ok f) (x : F) :
    e.eval x = (f.eval x).mapError .undefined ∧ e.slope x = (f.slope x).mapError .undefined := by
  unfold curve at h
  split at h
  · next fits =>
      cases h
      refine ⟨fits.execute_eq x, ?_⟩
      change (e.program.execute (Dual.variableAt x)).map Dual.eps =
        ((fits.value (Dual.variableAt x)).map Dual.eps).mapError Halt.undefined
      rw [fits.execute_eq]
      cases fits.value (Dual.variableAt x) <;> rfl
  · cases h

/-- A family has the curve of the expression and the values of the maps around it. -/
theorem eval_of_family [Numeral F] {e : Expression F} {f : Family F} (h : e.family = .ok f) :
    e.curve = .ok f.toCurve ∧
      ∀ α x, (e.residualMap α).eval x = (f.residualMap α x).mapError .undefined := by
  unfold family at h
  split at h
  · next fits =>
      split at h
      · next mapFits =>
          cases h
          exact ⟨curve_of_fits fits,
            fun α x ↦ (mapFits.residualMap_of_residualMap α).execute_eq x⟩
      · cases h
  · cases h

end Expression

namespace Curve

/-- The curve of `x`. -/
def identity : Curve Float := Expression.curveOfFits ⟨"x", ⟨[.var], 1⟩⟩ (by decide)

theorem draws_identity : Expression.Draws "x" identity :=
  ⟨_, by decide +kernel, Expression.curve_of_fits _⟩

theorem eval_identity {x : Float} (finite : Arith.isFinite x) : identity.eval x = .ok x := by
  have fits : (⟨[.var], 1⟩ : Program Float).Fits := by decide
  exact mapError_eq_ok.mp ((fits.execute_eq x).symm.trans (if_pos finite))

/-- The curve of `1/x`. -/
def reciprocal : Curve Float :=
  Expression.curveOfFits ⟨"1/x", ⟨[.const 1, .var, .binary .div], 2⟩⟩ (by decide)

theorem draws_reciprocal : Expression.Draws "1/x" reciprocal :=
  ⟨_, by decide +kernel, Expression.curve_of_fits _⟩

/-- The curve of `x-1`. -/
def line : Curve Float :=
  Expression.curveOfFits ⟨"x-1", ⟨[.var, .const 1, .binary .sub], 2⟩⟩ (by decide)

theorem draws_line : Expression.Draws "x-1" line :=
  ⟨_, by decide +kernel, Expression.curve_of_fits _⟩

end Curve

end ScalarSolve
