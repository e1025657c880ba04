import ScalarSolve.Proofs.Expression.Curve
import ScalarSolve.Proofs.Solve.Relaxation

/-!
# What a fixed-point search reports

The residual of a fixed-point search is that of another function if one is supplied, and how far the
map still moves the root if not.  It is asked for behind the last point: two searches for one map
with different residuals go through the same points, and only where one of them settles may the
other one find that it has nothing to report.  A search that the map itself cuts short does not ask
at all, and then the residual is not the one that was to be reported.
-/

namespace ScalarSolve

open Formula

variable {F : Type} [Arith F]

/-! ## The residual at the root -/

namespace Iterates

variable {xs : Iterates F}

@[simp] theorem root_settle (residual : Except (EvalError F) F) :
    (xs.settle residual).root = xs.last := by
  cases residual <;> rfl

theorem reports_settle (xs : Iterates F) (f : PartialMap F) :
    (xs.settle (f xs.last)).Reports f := by
  cases last : f xs.last with
  | ok y => exact reports_finish last
  | error e => exact reports_finish_nan last

theorem settle_ne_runaway (residual : Except (EvalError F) F) :
    (xs.settle residual).termination ≠ .diverged .runaway := by
  cases residual <;> nofun

end Iterates

namespace FixedPoint

variable {l : Limits F} {w x : F} {g residual : PartialMap F} {run : PartialMap F → Run F}

namespace Ending

/-- Unless the map cuts the search short, the residual is the one that was asked for. -/
theorem reports (h : Ending l w g x run)
    (uncut : ∀ why, (run residual).termination = .diverged why →
      why ≠ .runaway ∧ ∃ image, g (run residual).root = .ok image) :
    (run residual).Reports residual := by
  cases h with
  | undefined stage undefined | lost stage step short undefined =>
      obtain ⟨-, image, value⟩ := uncut _ rfl
      cases undefined.symm.trans value
  | runaway stage value wild => exact absurd rfl (uncut _ rfl).1
  | @settled left xs z image stage step short value =>
      exact (xs.accept z).reports_settle residual
  | exhausted stage => exact Iterates.reports_exhausted residual _

/-- A runaway reports how far the map would have moved the root. -/
theorem residual_of_runaway (h : Ending l w g x run)
    (diverged : (run residual).termination = .diverged .runaway) :
    ∃ image, g (run residual).root = .ok image ∧
      (run residual).residual = image - (run residual).root := by
  cases h with
  | runaway stage value wild => exact ⟨_, value, rfl⟩
  | undefined | lost | exhausted => cases diverged
  | settled => exact absurd diverged (Iterates.settle_ne_runaway _)

/-- Nothing is reported at a root without an image. -/
theorem residual_of_undefined (h : Ending l w g x run) {why : Breakdown F} {e : EvalError F}
    (diverged : (run residual).termination = .diverged why)
    (undefined : g (run residual).root = .error e) : (run residual).residual = Arith.nan := by
  cases h with
  | undefined | lost => rfl
  | runaway stage value wild => cases value.symm.trans undefined
  | @settled left xs z image stage step short value =>
      simp only [Iterates.root_settle, Iterates.last_accept] at undefined
      cases value.symm.trans undefined
  | exhausted => cases diverged

end Ending

/-- A valid search with a function to report has a run.  Its residual is the value of the function
at the root or, where there is none, undefined, unless the map cuts the search short: at a root
without an image the residual is undefined, and a runaway reports how far the map would have moved
the root, whatever the function is there. -/
theorem solve_residual (valid : l.Valid) (positive : Arith.isPositive w)
    (atMostOne : Arith.le w Arith.one) (finite : Arith.isFinite x) (g f : Curve F) :
    ∃ r, solve l w g (some f) x = .ok r ∧
      ((∀ why, r.termination = .diverged why →
          why ≠ .runaway ∧ ∃ image, g.eval r.root = .ok image) → r.Reports f.eval) ∧
      (r.termination = .diverged .runaway →
        ∃ image, g.eval r.root = .ok image ∧ r.residual = image - r.root) ∧
      ∀ why e, r.termination = .diverged why → g.eval r.root = .error e →
        r.residual = Arith.nan := by
  have ran : solve l w g (some f) x = _ :=
    search_of_valid valid positive atMostOne finite g.eval f.eval
  have ending := ending_of_search l w g.eval x
  exact ⟨_, ran, ending.reports, ending.residual_of_runaway,
    fun _ _ ↦ ending.residual_of_undefined⟩

/-- The curve of `x/2`. -/
def halving : Curve Float :=
  Expression.curveOfFits ⟨"x/2", ⟨[.var, .const 2, .binary .div], 2⟩⟩ (by decide)

/-- The curve of `1/(x-2)`. -/
def pole : Curve Float :=
  Expression.curveOfFits
    ⟨"1/(x-2)", ⟨[.const 1, .var, .const 2, .binary .sub, .binary .div], 3⟩⟩ (by decide)

/-- On doubles, a search that has run out of iterations tells the value at its last point. -/
theorem solve_residual_halving :
    Limits.Valid (⟨0.125, 1⟩ : Limits Float) ∧ Arith.isPositive (1 : Float) ∧
      Arith.le (1 : Float) Arith.one ∧ Arith.isFinite (3 : Float) ∧
      ∃ r, solve ⟨0.125, 1⟩ 1 halving (some pole) 3 = .ok r ∧ r.termination = .exhausted 1 ∧
        r.root = 1.5 ∧ pole.eval r.root = .ok (-2) ∧ r.residual = -2 := by
  have valid : Limits.Valid (⟨0.125, 1⟩ : Limits Float) :=
    ⟨by decide +kernel, by decide, by decide⟩
  have positive : Arith.isPositive (1 : Float) := by decide +kernel
  have atMostOne : Arith.le (1 : Float) Arith.one := by decide +kernel
  have finite : Arith.isFinite (3 : Float) := by decide +kernel
  have ran : solve ⟨0.125, 1⟩ 1 halving (some pole) 3 =
      .ok ⟨1.5, -2, 1.5, 1, [3, 1.5], .exhausted 1⟩ := by decide +kernel
  obtain ⟨r, ran', reports, -⟩ := solve_residual valid positive atMostOne finite halving pole
  obtain rfl := Except.ok.inj (ran.symm.trans ran')
  have value : pole.eval 1.5 = .ok (-2) := by decide +kernel
  exact ⟨valid, positive, atMostOne, finite, _, ran, rfl, rfl, value,
    (reports fun _ diverged ↦ nomatch diverged).value _ value⟩

/-- The curve of `1e101`. -/
def far : Curve Float := Expression.curveOfFits ⟨"1e101", ⟨[.const 1e101], 1⟩⟩ (by decide)

open Curve (identity draws_identity)

/-- On doubles, a step from one to a point beyond the bound is not taken, and what is reported at
one is the length of that step and not the value there. -/
theorem residual_of_farStep :
    ∃ g f : Curve Float, Expression.Draws "1e101" g ∧ Expression.Draws "x" f ∧
      Limits.Valid (⟨0.125, 9⟩ : Limits Float) ∧ Arith.isPositive (1 : Float) ∧
      Arith.le (1 : Float) Arith.one ∧ Arith.isFinite (1 : Float) ∧
      ∃ r, solve ⟨0.125, 9⟩ 1 g (some f) 1 = .ok r ∧ r.termination = .diverged .runaway ∧
        r.root = 1 ∧ f.eval r.root = .ok 1 ∧ r.residual = 1e101 ∧ ¬ r.Reports f.eval := by
  have ran : solve ⟨0.125, 9⟩ 1 far (some identity) (1 : Float) =
      .ok ⟨1, 1e101, 0, 0, [1], .diverged .runaway⟩ := by decide +kernel
  have value : identity.eval 1 = .ok 1 := by decide +kernel
  refine ⟨far, identity, ⟨_, by decide +kernel, Expression.curve_of_fits _⟩, draws_identity,
    ⟨by decide +kernel, by decide, by decide⟩, by decide +kernel, by decide +kernel,
    by decide +kernel, _, ran, rfl, rfl, value, rfl, fun reports ↦ ?_⟩
  have different : (1e101 : Float) ≠ 1 := by decide +kernel
  exact different (reports.value _ value)

end FixedPoint

/-! ## Two residuals -/

/-- The run `r'` goes through the points of `r` and ends like it, except that it breaks down where
`r` converges to a root at which `f` has no value. -/
structure Run.Alongside [Numeral F] (f : PartialMap F) (r r' : Run F) : Prop where
  trace : r'.trace = r.trace
  iterations : r'.iterations = r.iterations
  root : r'.root = r.root
  delta : r'.delta = r.delta
  alike : (r.termination = .converged → ∃ y, f r.root = .ok y) →
    r'.termination = r.termination ∧ r'.message? = r.message?
  undefined : ∀ e, r.termination = .converged → f r.root = .error e →
    r'.termination = .diverged (.undefined e) ∧
      r'.message? = some ("function undefined at x = " ++ Numeral.text e.point ++ ": " ++ e.message)

namespace Iterates

variable [Numeral F] {f : PartialMap F} {xs : Iterates F}

omit [Arith F] in
/-- Two runs that end alike, and not by convergence. -/
theorem alongside_finish {how : Termination F} (other : how ≠ .converged) (y y' : F) :
    (xs.finish how y).Alongside f (xs.finish how y') where
  trace := rfl
  iterations := rfl
  root := rfl
  delta := rfl
  alike _ := ⟨rfl, rfl⟩
  undefined _ converged := absurd converged other

/-- A run that converges, and one that has to ask for a value first. -/
theorem alongside_settle (xs : Iterates F) (f : PartialMap F) (y : F) :
    (xs.converged y).Alongside f (xs.settle (f xs.last)) := by
  cases value : f xs.last with
  | ok y' =>
      refine ⟨rfl, rfl, rfl, rfl, fun _ ↦ ⟨rfl, rfl⟩, ?_⟩
      intro e _ undefined
      cases value.symm.trans undefined
  | error e =>
      refine ⟨rfl, rfl, rfl, rfl, ?_, ?_⟩
      · intro defined
        obtain ⟨y', value'⟩ := defined rfl
        cases value.symm.trans value'
      · rintro e' - undefined
        obtain rfl : e = e' := Except.error.inj (value.symm.trans undefined)
        exact ⟨rfl, rfl⟩

end Iterates

namespace FixedPoint

variable {l : Limits F} {w x : F} {g : PartialMap F} {run : PartialMap F → Run F}

theorem displacement_eq_ok {z image : F} (value : g z = .ok image) :
    displacement g z = .ok (image - z) := by
  rw [displacement, value]
  rfl

theorem Ending.alongside [Numeral F] (h : Ending l w g x run) (f : PartialMap F) :
    (run (displacement g)).Alongside f (run f) := by
  cases h with
  | undefined | runaway | lost | exhausted => exact Iterates.alongside_finish (by nofun) _ _
  | @settled left xs z image stage step short value =>
      simp only [displacement_eq_ok value]
      exact (xs.accept z).alongside_settle f (image - z)

/-- A search with a function to report is refused for the same reason as one without, or it goes
through the same points and ends in the same way, with the same message; but if the search without
converges to a root where the function has no value, the search with it breaks down there. -/
theorem solve_alongside [Numeral F] (l : Limits F) (w : F) (g f : Curve F) (x : F) :
    (∀ e, solve l w g none x = .error e ↔ solve l w g (some f) x = .error e) ∧
      ∀ r, solve l w g none x = .ok r →
        ∃ r', solve l w g (some f) x = .ok r' ∧ r.Alongside f.eval r' := by
  rw [solve_eq_search, solve_eq_search]
  constructor
  · intro e
    rw [search_eq_guard, search_eq_guard, Check.guard_eq_error, Check.guard_eq_error]
  · intro r ran
    obtain ⟨valid, weight, finite, rfl⟩ := search_eq_ok.mp ran
    exact ⟨_, search_eq_ok.mpr ⟨valid, weight, finite, rfl⟩,
      (ending_of_search l w g.eval x).alongside f.eval⟩

/-- The curve of `2`. -/
def two : Curve Float := Expression.curveOfFits ⟨"2", ⟨[.const 2], 1⟩⟩ (by decide)

/-- On doubles, a search converges to two, and the same search breaks down there if it has to report
a function with a pole at two. -/
theorem solve_alongside_pole :
    ∃ r r', solve ⟨0.125, 9⟩ 1 two none 1 = .ok r ∧
      solve ⟨0.125, 9⟩ 1 two (some pole) 1 = .ok r' ∧ r.trace = [1, 2, 2] ∧ r'.trace = r.trace ∧
      r.termination = .converged ∧
      r'.termination = .diverged (.undefined (.divisionByZero 2)) := by
  have ran : solve ⟨0.125, 9⟩ 1 two none 1 = .ok ⟨2, 0, 0, 2, [1, 2, 2], .converged⟩ := by
    decide +kernel
  have undefined : pole.eval 2 = .error (.divisionByZero 2) := by decide +kernel
  obtain ⟨-, goesOn⟩ := solve_alongside ⟨0.125, 9⟩ 1 two pole 1
  obtain ⟨r', ran', alongside⟩ := goesOn _ ran
  exact ⟨_, r', ran, ran', rfl, alongside.trace, rfl, (alongside.undefined _ rfl undefined).1⟩

end FixedPoint

end ScalarSolve
