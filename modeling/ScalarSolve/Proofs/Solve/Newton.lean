import ScalarSolve.Proofs.Arith.Order
import ScalarSolve.Proofs.Expression.Curve
import ScalarSolve.Proofs.Result
import ScalarSolve.Proofs.Solve.Continuation
import ScalarSolve.Proofs.Solve.Trace

/-!
# The orbit of Newton's method

The points of a run are the orbit of its start under steps along the tangent, as far as such steps
go, and how the run ended is what the last of them says.  The residual is tested before a step and
the length of a step behind it, so there is one test that is not made: that of the residual behind
the last step that the limit allows.
-/

namespace ScalarSolve.Newton

open Formula

variable {F : Type} [Arith F]

/-! ## Steps -/

/-- From a point that is not close enough to a root, the tangent leads to a finite point. -/
def Step (l : Limits F) (f f' : PartialMap F) (t t' : F) : Prop :=
  ∃ y d, f t = .ok y ∧ ¬ l.reached (Arith.abs y) ∧ f' t = .ok d ∧ ¬ Arith.isZero d ∧
    t' = t - y / d ∧ Arith.isFinite t'

/-- Why the tangent leads nowhere. -/
inductive Stuck (f f' : PartialMap F) (t : F) : Breakdown F → Prop
  | undefined {e : EvalError F} (h : f t = .error e) : Stuck f f' t (.undefined e)
  | undefinedSlope {e : EvalError F} (h : f' t = .error e) : Stuck f f' t (.flatDerivative t)
  | flat {d : F} (slope : f' t = .ok d) (zero : Arith.isZero d) : Stuck f f' t (.flatDerivative t)
  | notFinite {y d : F} (value : f t = .ok y) (slope : f' t = .ok d) (steep : ¬ Arith.isZero d)
      (far : ¬ Arith.isFinite (t - y / d)) : Stuck f f' t .newtonNotFinite

variable {l : Limits F} {f f' : PartialMap F} {t t' y : F} {why : Breakdown F}

theorem step_of_next (value : f t = .ok y) (away : ¬ l.reached (Arith.abs y))
    (h : next f' t y = .ok t') : Step l f f' t t' := by
  unfold next at h
  split at h
  · cases h
  · next d slope =>
      split at h
      · cases h
      · next steep =>
          dsimp only at h
          split at h
          · next finite =>
              cases h
              exact ⟨y, d, value, away, slope, steep, rfl, finite⟩
          · cases h

theorem stuck_of_next (value : f t = .ok y) (h : next f' t y = .error why) :
    Stuck f f' t why := by
  unfold next at h
  split at h
  · next e slope =>
      cases h
      exact .undefinedSlope slope
  · next d slope =>
      split at h
      · next zero =>
          cases h
          exact .flat slope zero
      · next steep =>
          dsimp only at h
          split at h
          · cases h
          · next far =>
              cases h
              exact .notFinite value slope steep far

/-! ## Orbits -/

/-- A run from `x` goes along the orbit of `x` and ends for what is the case at its root. -/
structure Orbit (l : Limits F) (f f' : PartialMap F) (x : F) (r : Run F) : Prop
    extends r.Follows l (Step l f f') x where
  converged : r.termination = .converged ↔ ∃ y, f r.root = .ok y ∧
    (0 < r.iterations ∧ l.reached r.delta ∨
      r.iterations < l.maxIterations ∧ l.reached (Arith.abs y))
  exhausted : ∀ n, r.termination = .exhausted n ↔
    n = l.maxIterations ∧ r.iterations = l.maxIterations ∧ ¬ l.reached r.delta
  diverged : ∀ why, r.termination = .diverged why → Stuck f f' r.root why
  residual : ∀ y, f r.root = .ok y → r.residual = y
  undefined : ∀ e, f r.root = .error e → r.residual = Arith.nan

variable {x : F} {left : Nat} {xs : Iterates F}

/-! ## Ends -/

theorem orbit_undefined {e : EvalError F} (follows : (xs.undefined e).Follows l (Step l f f') x)
    (value : f xs.last = .error e)
    (early : l.reached xs.delta ∨ xs.count < l.maxIterations) :
    Orbit l f f' x (xs.undefined e) where
  toFollows := follows
  converged := by
    refine iff_of_false nofun ?_
    rintro ⟨y, value', -⟩
    cases value.symm.trans value'
  exhausted n := by
    refine iff_of_false nofun ?_
    rintro ⟨-, spent, long⟩
    exact (early.resolve_left long).ne spent
  diverged := by
    rintro _ ⟨⟩
    exact .undefined value
  residual y value' := by cases value.symm.trans value'
  undefined _ _ := rfl

theorem orbit_converged (follows : (xs.converged y).Follows l (Step l f f') x)
    (value : f xs.last = .ok y)
    (near : 0 < xs.count ∧ l.reached xs.delta ∨
      xs.count < l.maxIterations ∧ l.reached (Arith.abs y)) :
    Orbit l f f' x (xs.converged y) where
  toFollows := follows
  converged := iff_of_true rfl ⟨y, value, near⟩
  exhausted n := by
    refine iff_of_false nofun ?_
    rintro ⟨-, spent, long⟩
    exact (near.resolve_left fun short ↦ long short.2).1.ne spent
  diverged := nofun
  residual y' value' := Except.ok.inj (value.symm.trans value')
  undefined e value' := by cases value.symm.trans value'

theorem orbit_diverged (h : xs.Follows l (Step l f f')) (underway : xs.Underway l x (left + 1))
    (value : f xs.last = .ok y) (away : ¬ l.reached (Arith.abs y))
    (stuck : Stuck f f' xs.last why) : Orbit l f f' x (xs.diverged why y) where
  toFollows := h.finish underway
  converged := by
    refine iff_of_false nofun ?_
    rintro ⟨y', value', near⟩
    obtain rfl : y = y' := Except.ok.inj (value.symm.trans value')
    refine away (near.resolve_left fun short ↦ ?_).2
    exact h.not_reached_delta underway short.1 short.2
  exhausted n := by
    refine iff_of_false nofun ?_
    rintro ⟨-, spent, -⟩
    exact underway.count_lt.ne spent
  diverged := by
    rintro _ ⟨⟩
    exact stuck
  residual y' value' := Except.ok.inj (value.symm.trans value')
  undefined e value' := by cases value.symm.trans value'

theorem orbit_exhausted (h : xs.Follows l (Step l f f')) (underway : xs.Underway l x 0) :
    Orbit l f f' x (xs.exhausted l.maxIterations (f xs.last)) where
  toFollows := h.finish underway
  converged := by
    refine iff_of_false nofun ?_
    rintro ⟨y, -, ⟨moves, short⟩ | ⟨early, -⟩⟩
    · exact h.not_reached_delta underway moves short
    · exact early.ne underway.budget
  exhausted n := by
    constructor
    · rintro ⟨⟩
      have spent : xs.count = l.maxIterations := underway.budget
      have moves : 0 < xs.count := spent ▸ underway.valid.some_iterations
      exact ⟨rfl, spent, h.not_reached_delta underway moves⟩
    · rintro ⟨rfl, -⟩
      rfl
  diverged := nofun
  residual y value := by
    change f xs.last = .ok y at value
    simp only [Iterates.exhausted, Iterates.finish, value]
  undefined e value := by
    change f xs.last = .error e at value
    simp only [Iterates.exhausted, Iterates.finish, value]

/-! ## Searches -/

theorem orbit_iterate : ∀ {left : Nat} {xs : Iterates F}, xs.Follows l (Step l f f') →
    xs.Underway l x left → Orbit l f f' x (iterate l f f' left xs) := by
  intro left
  induction left with
  | zero => exact fun h underway ↦ orbit_exhausted h underway
  | succ left ih =>
      intro xs h underway
      unfold iterate
      cases value : f xs.last with
      | error e => exact orbit_undefined (h.finish underway) value (.inr underway.count_lt)
      | ok y =>
          dsimp only
          split
          · next near =>
              exact orbit_converged (h.finish underway) value (.inr ⟨underway.count_lt, near⟩)
          · next away =>
              cases after : next f' xs.last y with
              | error why => exact orbit_diverged h underway value away (stuck_of_next value after)
              | ok z =>
                  have step := step_of_next value away after
                  dsimp only
                  split
                  · next short =>
                      have underway := underway.accept z
                      cases value' : f z with
                      | error e =>
                          exact orbit_undefined (h.finish_accept underway step) value'
                            (.inl short)
                      | ok y' =>
                          exact orbit_converged (h.finish_accept underway step) value'
                            (.inl ⟨Nat.succ_pos _, short⟩)
                  · next long => exact ih (h.accept step long) (underway.accept z)

theorem orbit_of_findRoot {r : Run F} (h : findRoot l f f' x = .ok r) : Orbit l f f' x r := by
  obtain ⟨valid, -, rfl⟩ := findRoot_eq_ok.mp h
  exact orbit_iterate (Iterates.follows_start x) (Iterates.underway_start valid x)

/-- A valid search from a finite point has a run, which goes along the orbit of the point: as long
as a step leads on and is not within the tolerance, and no further. -/
theorem findRoot_orbit (valid : l.Valid) (finite : Arith.isFinite x) (f f' : PartialMap F) :
    ∃ r, findRoot l f f' x = .ok r ∧ Orbit l f f' x r := by
  have ran : findRoot l f f' x = .ok (iterate l f f' l.maxIterations (.start x)) :=
    findRoot_eq_ok.mpr ⟨valid, finite, rfl⟩
  exact ⟨_, ran, orbit_of_findRoot ran⟩

/-- The curve of `1-1/x`. -/
def hyperbola : Curve Float :=
  Expression.curveOfFits
    ⟨"1-1/x", ⟨[.const 1, .const 1, .var, .binary .div, .binary .sub], 3⟩⟩ (by decide)

/-- On doubles, one step from two leads to the pole of a hyperbola, where the search breaks down. -/
theorem findRoot_orbit_pole :
    Limits.Valid (⟨0.125, 9⟩ : Limits Float) ∧ Arith.isFinite (2 : Float) ∧
      ∃ r, findRoot ⟨0.125, 9⟩ hyperbola.eval hyperbola.slope 2 = .ok r ∧ r.trace = [2, 0] ∧
        Step ⟨0.125, 9⟩ hyperbola.eval hyperbola.slope 2 0 ∧
        Stuck hyperbola.eval hyperbola.slope r.root (.undefined (.divisionByZero 0)) := by
  have valid : Limits.Valid (⟨0.125, 9⟩ : Limits Float) :=
    ⟨by decide +kernel, by decide, by decide⟩
  have finite : Arith.isFinite (2 : Float) := by decide +kernel
  have ran : findRoot ⟨0.125, 9⟩ hyperbola.eval hyperbola.slope 2 =
      .ok ⟨0, Arith.nan, 2, 1, [2, 0], .diverged (.undefined (.divisionByZero 0))⟩ := by
    decide +kernel
  obtain ⟨r, ran', orbit⟩ := findRoot_orbit valid finite hyperbola.eval hyperbola.slope
  obtain rfl := Except.ok.inj (ran.symm.trans ran')
  exact ⟨valid, finite, _, ran, rfl, orbit.steps 0 2 0 rfl rfl, orbit.diverged _ rfl⟩

/-! ## The residual at the limit -/

/-- A search with more iterations than one that has run out of them stops where that one did if the
residual there is close enough to zero, and only then. -/
theorem Orbit.stops_iff {n : Nat} {r r' : Run F} (h : Orbit l f f' x r)
    (exhausted : r.termination = .exhausted l.maxIterations)
    (h' : Orbit { l with maxIterations := n } f f' x r') (longer : l.maxIterations < n)
    (grown : r.trace <+: r'.trace) :
    r'.termination = .converged ∧ r'.trace = r.trace ↔
      ∃ y, f r.root = .ok y ∧ l.reached (Arith.abs y) := by
  obtain ⟨-, spent, long⟩ := (h.exhausted _).mp exhausted
  constructor
  · rintro ⟨converged, same⟩
    obtain ⟨iterations, root, delta⟩ := h'.eq_of_trace_eq h.toLogged same
    obtain ⟨y, value, ⟨moves, short⟩ | ⟨-, near⟩⟩ := h'.converged.mp converged
    · rw [delta moves] at short
      exact absurd short long
    · exact ⟨y, root ▸ value, near⟩
  · rintro ⟨y, value, near⟩
    -- One more point would have come of a step from a point where the residual is close enough.
    have same : r'.trace = r.trace := by
      obtain ⟨back, eq⟩ := grown
      cases back with
      | nil => rw [← eq, List.append_nil]
      | cons z back =>
          have here : r'.trace[r.iterations]? = some r.root := by
            rw [← eq, List.getElem?_append_left (by rw [h.counted]; omega), h.ends]
          have next : r'.trace[r.iterations + 1]? = some z := by
            rw [← eq, ← h.counted, List.getElem?_append_right le_rfl, Nat.sub_self]
            rfl
          obtain ⟨y', d, value', away, -⟩ := h'.steps _ _ _ here next
          obtain rfl : y = y' := Except.ok.inj (value.symm.trans value')
          exact absurd near away
    obtain ⟨iterations, root, -⟩ := h'.eq_of_trace_eq h.toLogged same
    have early : r'.iterations < n := by
      rw [iterations, spent]
      exact longer
    exact ⟨h'.converged.mpr ⟨y, root ▸ value, .inr ⟨early, near⟩⟩, same⟩

theorem solve_eq_ok {mode : DerivativeMode F} {f : Curve F} {r : Run F} :
    solve l mode f x = .ok r ↔
      mode.validate = .ok () ∧ findRoot l f.eval (mode.slope f) x = .ok r :=
  check_bind_eq_ok

/-- A search on doubles that has run out of iterations has made a last step longer than the
tolerance, and no residual at a point before the root is within the tolerance.  That of the root is
not tested: it is within the tolerance if and only if every search with more iterations converges at
this very root, without another step. -/
theorem exhausted_solve {l : Limits Float} {mode : DerivativeMode Float} {f : Curve Float}
    {x : Float} {r : Run Float} {n : Nat} (ran : solve l mode f x = .ok r)
    (exhausted : r.termination = .exhausted n) :
    ¬ l.reached r.delta ∧
      (∀ i t, i < r.iterations → r.trace[i]? = some t →
        ∃ y, f.eval t = .ok y ∧ ¬ l.reached (Arith.abs y)) ∧
      ∀ more, l.maxIterations < more → more ≤ 10000 →
        ∃ r', solve { l with maxIterations := more } mode f x = .ok r' ∧
          (l.reached (Arith.abs r.residual) ↔
            r'.termination = .converged ∧ r'.trace = r.trace) := by
  obtain ⟨step, found⟩ := solve_eq_ok.mp ran
  obtain ⟨valid, finite, run⟩ := findRoot_eq_ok.mp found
  have orbit := orbit_of_findRoot found
  obtain ⟨rfl, spent, long⟩ := (orbit.exhausted n).mp exhausted
  refine ⟨long, ?_, ?_⟩
  · intro i t before here
    obtain ⟨t', next⟩ := orbit.exists_getElem? before
    obtain ⟨y, d, value, away, -⟩ := orbit.steps i t t' here next
    exact ⟨y, value, away⟩
  · intro more longer few
    have valid' : Limits.Valid { l with maxIterations := more } :=
      ⟨valid.tolerance, Nat.one_le_of_lt longer, few⟩
    have ext : Limits.Extends { l with maxIterations := more } l :=
      ⟨Double.le_self (Bool.and_eq_true_iff.mp valid.tolerance).1, longer.le⟩
    obtain ⟨r', found'⟩ : ∃ r', findRoot { l with maxIterations := more } f.eval (mode.slope f) x =
        .ok r' := ⟨_, findRoot_eq_ok.mpr ⟨valid', finite, rfl⟩⟩
    have grown : r.trace <+: r'.trace := by
      obtain ⟨-, -, rfl⟩ := findRoot_eq_ok.mp found'
      rw [run]
      exact (continues_iterate (fun _ _ _ ↦ Double.le_trans) ext _ _ _ longer.le).trace
    refine ⟨r', solve_eq_ok.mpr ⟨step, found'⟩, ?_⟩
    rw [orbit.stops_iff exhausted (orbit_of_findRoot found') longer grown]
    cases value : f.eval r.root with
    | ok y =>
        rw [orbit.residual y value]
        exact ⟨fun near ↦ ⟨y, rfl, near⟩, fun ⟨y', eq, near⟩ ↦ Except.ok.inj eq ▸ near⟩
    | error e =>
        rw [orbit.undefined e value]
        exact iff_of_false (Double.not_abs_nan_le _) nofun

/-- On doubles, a limit of one iteration is used up by the step along a line to its root, and a
limit of two would not be. -/
theorem exhausted_solve_line :
    ∃ r, solve ⟨0.125, 1⟩ .analytic .line 3 = .ok r ∧ r.termination = .exhausted 1 ∧
      ¬ (⟨0.125, 1⟩ : Limits Float).reached r.delta ∧
      ∃ r', solve ⟨0.125, 2⟩ .analytic .line 3 = .ok r' ∧ r'.termination = .converged ∧
        r'.trace = r.trace := by
  have ran : solve ⟨0.125, 1⟩ .analytic .line 3 = .ok ⟨1, 0, 2, 1, [3, 1], .exhausted 1⟩ := by
    decide +kernel
  obtain ⟨long, -, longer⟩ := exhausted_solve ran rfl
  obtain ⟨r', ran', stops⟩ := longer 2 (by decide) (by decide)
  exact ⟨_, ran, rfl, long, r', ran', stops.mp (by decide +kernel)⟩

/-- On doubles, a search that has run out of iterations reports a root with a residual of zero. -/
theorem exhausted_at_root :
    Expression.Draws "x-1" .line ∧ Limits.Valid (⟨1e-10, 1⟩ : Limits Float) ∧
      Arith.isFinite (3 : Float) ∧ ∃ r, solve ⟨1e-10, 1⟩ .analytic .line 3 = .ok r ∧
        r.termination = .exhausted 1 ∧ Curve.line.eval r.root = .ok 0 ∧ r.residual = 0 ∧
        (⟨1e-10, 1⟩ : Limits Float).reached (Arith.abs r.residual) := by
  have ran : solve ⟨1e-10, 1⟩ .analytic .line 3 = .ok ⟨1, 0, 2, 1, [3, 1], .exhausted 1⟩ := by
    decide +kernel
  exact ⟨Curve.draws_line, ⟨by decide +kernel, by decide, by decide⟩, by decide +kernel, _, ran,
    rfl, by decide +kernel, rfl, by decide +kernel⟩

end ScalarSolve.Newton
