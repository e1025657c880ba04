import ScalarSolve.Proofs.Arith.Double
import ScalarSolve.Proofs.Arith.Order
import ScalarSolve.Proofs.Solve.Trace

/-!
# The relaxed orbit

The points of a fixed-point search are the orbit of its start under relaxed steps of the map, as far
as such steps lead on.  The map alone decides which points these are and behind which of them the
search ends; a residual is asked for only then.  So a search comes from one *stage* to the next
without it, and an *ending* is a run for every residual that might be reported.
-/

namespace ScalarSolve.FixedPoint

open Formula

variable {F : Type} [Arith F]

/-! ## Steps -/

/-- The mixture of a point and its image is finite and within the bound. -/
def Step (w : F) (g : PartialMap F) (t t' : F) : Prop :=
  ∃ image, g t = .ok image ∧ t' = (Arith.one - w) * t + w * image ∧
    Arith.isFinite t' ∧ ¬ Arith.lt bound (Arith.abs t')

variable {l : Limits F} {w x z image : F} {g residual : PartialMap F} {left : Nat}
  {xs : Iterates F} {r : Run F} {run : PartialMap F → Run F}

theorem isTame_iff : isTame z ↔ Arith.isFinite z ∧ ¬ Arith.lt bound (Arith.abs z) := by
  rw [isTame, Bool.and_eq_true, Bool.not_eq_true', Bool.not_eq_true]

theorem step_of_isTame (value : g z = .ok image) (tame : isTame (mixture w z image)) :
    Step w g z (mixture w z image) :=
  ⟨image, value, rfl, isTame_iff.mp tame⟩

/-! ## Stages and endings -/

/-- The search from `x` comes to this log, with so many iterations left. -/
inductive Stage (l : Limits F) (w : F) (g : PartialMap F) (x : F) : Nat → Iterates F → Prop
  | start : Stage l w g x l.maxIterations (.start x)
  | step {left : Nat} {xs : Iterates F} {z : F} (before : Stage l w g x (left + 1) xs)
      (step : Step w g xs.last z) (long : ¬ l.reached (xs.accept z).delta) :
      Stage l w g x left (xs.accept z)

/-- The search from `x` ends with these runs, one for each residual. -/
inductive Ending (l : Limits F) (w : F) (g : PartialMap F) (x : F) : (PartialMap F → Run F) → Prop
  | undefined {left : Nat} {xs : Iterates F} {e : EvalError F}
      (stage : Stage l w g x (left + 1) xs) (undefined : g xs.last = .error e) :
      Ending l w g x fun _ ↦ xs.undefined e
  | runaway {left : Nat} {xs : Iterates F} {image : F} (stage : Stage l w g x (left + 1) xs)
      (value : g xs.last = .ok image) (wild : ¬ isTame (mixture w xs.last image)) :
      Ending l w g x fun _ ↦ xs.diverged .runaway (image - xs.last)
  | lost {left : Nat} {xs : Iterates F} {z : F} {e : EvalError F}
      (stage : Stage l w g x (left + 1) xs) (step : Step w g xs.last z)
      (short : l.reached (xs.accept z).delta) (undefined : g z = .error e) :
      Ending l w g x fun _ ↦ (xs.accept z).undefined e
  | settled {left : Nat} {xs : Iterates F} {z image : F} (stage : Stage l w g x (left + 1) xs)
      (step : Step w g xs.last z) (short : l.reached (xs.accept z).delta)
      (value : g z = .ok image) :
      Ending l w g x fun residual ↦ (xs.accept z).settle (residual z)
  | exhausted {xs : Iterates F} (stage : Stage l w g x 0 xs) :
      Ending l w g x fun residual ↦ xs.exhausted l.maxIterations (residual xs.last)

theorem ending_iterate (stage : Stage l w g x left xs) :
    Ending l w g x fun residual ↦ iterate l w g residual left xs := by
  induction left generalizing xs with
  | zero => exact .exhausted stage
  | succ left ih =>
      simp only [iterate]
      cases value : g xs.last with
      | error e => exact .undefined stage value
      | ok image =>
          dsimp only
          split
          · next wild =>
              rw [Bool.not_eq_true', Bool.eq_false_iff] at wild
              exact .runaway stage value wild
          · next tame =>
              rw [Bool.not_eq_true', Bool.not_eq_false] at tame
              have step := step_of_isTame value tame
              split
              · next short =>
                  cases value' : g (mixture w xs.last image) with
                  | error e => exact .lost stage step short value'
                  | ok image' => exact .settled stage step short value'
              · next long => exact ih (stage.step step long)

theorem ending_of_search (l : Limits F) (w : F) (g : PartialMap F) (x : F) :
    Ending l w g x fun residual ↦ iterate l w g residual l.maxIterations (.start x) :=
  ending_iterate .start

namespace Stage

theorem underway (valid : l.Valid) (h : Stage l w g x left xs) : xs.Underway l x left := by
  induction h with
  | start => exact Iterates.underway_start valid x
  | step before step long ih => exact ih.accept _

theorem follows (h : Stage l w g x left xs) : xs.Follows l (Step w g) := by
  induction h with
  | start => exact Iterates.follows_start x
  | step before step long ih => exact ih.accept step long

end Stage

/-! ## Orbits -/

/-- Why a search with this run broke down: the root has no image, or the next point is not finite or
beyond the bound, or the last step is within the tolerance but there is no residual at the root. -/
inductive Stuck (l : Limits F) (w : F) (g residual : PartialMap F) (r : Run F) : Breakdown F → Prop
  | undefined {e : EvalError F} (undefined : g r.root = .error e) :
      Stuck l w g residual r (.undefined e)
  | runaway {image z : F} (value : g r.root = .ok image)
      (mixed : z = (Arith.one - w) * r.root + w * image)
      (wild : ¬ Arith.isFinite z ∨ Arith.lt bound (Arith.abs z)) : Stuck l w g residual r .runaway
  | unsettled {image : F} {e : EvalError F} (moves : 0 < r.iterations)
      (short : l.reached r.delta) (value : g r.root = .ok image)
      (undefined : residual r.root = .error e) : Stuck l w g residual r (.undefined e)

/-- A run from `x` goes along the relaxed orbit of `x` and ends for what is the case at its root. -/
structure Orbit (l : Limits F) (w : F) (g residual : PartialMap F) (x : F) (r : Run F) : Prop
    extends r.Follows l (Step w g) x where
  converged : r.termination = .converged ↔
    (0 < r.iterations ∧ l.reached r.delta) ∧ (∃ image, g r.root = .ok image) ∧
      ∃ y, residual r.root = .ok y
  exhausted : ∀ n, r.termination = .exhausted n ↔
    n = l.maxIterations ∧ r.iterations = l.maxIterations ∧ ¬ l.reached r.delta
  diverged : ∀ why, r.termination = .diverged why → Stuck l w g residual r why

/-- A run that breaks down before its iterations are used up or behind a last step within the
tolerance. -/
theorem orbit_diverged {why : Breakdown F} {y : F}
    (follows : (xs.diverged why y).Follows l (Step w g) x)
    (early : l.reached xs.delta ∨ xs.count < l.maxIterations)
    (stuck : Stuck l w g residual (xs.diverged why y) why)
    (unsettled : 0 < xs.count ∧ l.reached xs.delta → (∃ image, g xs.last = .ok image) →
      ∃ e, residual xs.last = .error e) :
    Orbit l w g residual x (xs.diverged why y) where
  toFollows := follows
  converged := by
    refine iff_of_false nofun ?_
    rintro ⟨short, defined, z, value⟩
    obtain ⟨e, undefined⟩ := unsettled short defined
    cases undefined.symm.trans value
  exhausted n := by
    refine iff_of_false nofun ?_
    rintro ⟨-, spent, long⟩
    exact (early.resolve_left long).ne spent
  diverged := by
    rintro _ ⟨⟩
    exact stuck

namespace Stage

/-- While iterations are left, the last step is not within the tolerance. -/
theorem not_short (valid : l.Valid) (h : Stage l w g x left xs) :
    ¬ (0 < xs.count ∧ l.reached xs.delta) :=
  fun ⟨moves, short⟩ ↦ h.follows.not_reached_delta (h.underway valid) moves short

theorem orbit_settle (valid : l.Valid) (h : Stage l w g x (left + 1) xs)
    (step : Step w g xs.last z) (short : l.reached (xs.accept z).delta)
    (value : g z = .ok image) :
    Orbit l w g residual x ((xs.accept z).settle (residual z)) := by
  have underway := (h.underway valid).accept z
  cases reported : residual z with
  | error e =>
      refine orbit_diverged (h.follows.finish_accept underway step) (.inl short) ?_ ?_
      · exact .unsettled (Nat.succ_pos _) short value reported
      · exact fun _ _ ↦ ⟨e, reported⟩
  | ok y =>
      exact
        { toFollows := h.follows.finish_accept underway step
          converged := iff_of_true rfl ⟨⟨Nat.succ_pos _, short⟩, ⟨image, value⟩, y, reported⟩
          exhausted := fun n ↦ iff_of_false nofun fun ⟨_, _, long⟩ ↦ long short
          diverged := nofun }

theorem orbit_exhausted (valid : l.Valid) (h : Stage l w g x 0 xs) :
    Orbit l w g residual x (xs.exhausted l.maxIterations (residual xs.last)) where
  toFollows := h.follows.finish (h.underway valid)
  converged := iff_of_false nofun fun ⟨short, _⟩ ↦ h.not_short valid short
  exhausted n := by
    have spent : xs.count = l.maxIterations := (h.underway valid).budget
    have moves : 0 < xs.count := spent ▸ valid.some_iterations
    constructor
    · rintro ⟨⟩
      exact ⟨rfl, spent, fun short ↦ h.not_short valid ⟨moves, short⟩⟩
    · rintro ⟨rfl, -⟩
      rfl
  diverged := nofun

end Stage

theorem Ending.orbit (valid : l.Valid) (h : Ending l w g x run) (residual : PartialMap F) :
    Orbit l w g residual x (run residual) := by
  cases h with
  | undefined stage undefined =>
      have underway := stage.underway valid
      exact orbit_diverged (stage.follows.finish underway) (.inr underway.count_lt)
        (.undefined undefined) fun short ↦ absurd short (stage.not_short valid)
  | runaway stage value wild =>
      have underway := stage.underway valid
      rw [isTame_iff, not_and_or, not_not] at wild
      exact orbit_diverged (stage.follows.finish underway) (.inr underway.count_lt)
        (.runaway value rfl wild) fun short ↦ absurd short (stage.not_short valid)
  | @lost left xs z e stage step short undefined =>
      have underway := (stage.underway valid).accept z
      refine orbit_diverged (stage.follows.finish_accept underway step) (.inl short)
        (.undefined undefined) ?_
      rintro - ⟨image, value⟩
      cases undefined.symm.trans value
  | settled stage step short value => exact stage.orbit_settle valid step short value
  | exhausted stage => exact stage.orbit_exhausted valid

/-! ## Searches -/

theorem search_of_valid (valid : l.Valid) (positive : Arith.isPositive w)
    (atMostOne : Arith.le w Arith.one) (finite : Arith.isFinite x) (g residual : PartialMap F) :
    search l w g residual x = .ok (iterate l w g residual l.maxIterations (.start x)) := by
  have weight : isWeight w := Bool.and_eq_true_iff.mpr ⟨positive, atMostOne⟩
  exact search_eq_ok.mpr ⟨valid, weight, finite, rfl⟩

theorem Orbit.tame {t : F} (h : Orbit l w g residual x r) {i : Nat}
    (here : r.trace[i + 1]? = some t) :
    Arith.isFinite t ∧ ¬ Arith.lt bound (Arith.abs t) := by
  obtain ⟨lt, -⟩ := List.getElem?_eq_some_iff.mp here
  rw [h.counted] at lt
  obtain ⟨t', before⟩ := h.exists_getElem? (i := i) (by omega)
  obtain ⟨image, -, -, tame⟩ := h.steps i t' t before here
  exact tame

/-- A valid search for a fixed point from a finite double has a run, which goes along the relaxed
orbit of the double: as long as a step leads to a finite point within the bound and is not within
the tolerance, and no further. -/
theorem search_orbit {l : Limits Float} {w x : Float} (valid : l.Valid)
    (positive : Arith.isPositive w) (atMostOne : Arith.le w Arith.one)
    (finite : Arith.isFinite x) (g residual : PartialMap Float) :
    ∃ r, search l w g residual x = .ok r ∧ Orbit l w g residual x r ∧
      ∀ i t, r.trace[i + 1]? = some t → Arith.isFinite t ∧ Arith.le (Arith.abs t) bound := by
  have ran := search_of_valid valid positive atMostOne finite g residual
  have orbit := (ending_of_search l w g x).orbit valid residual
  refine ⟨_, ran, orbit, fun i t here ↦ ?_⟩
  obtain ⟨finite, within⟩ := orbit.tame here
  exact ⟨finite, Double.le_of_not_lt (by decide +kernel) (Double.isFinite_abs t finite) within⟩

/-- On doubles, half a step at a time, a search comes close to the fixed point of `2.5-1.5*x`, but
to the side where no residual is defined. -/
theorem search_orbit_damped :
    let g : PartialMap Float := fun x ↦ .ok (2.5 - 1.5 * x)
    let residual : PartialMap Float := fun x ↦
      if Arith.lt x 1 then .error (.nonFinite x) else .ok (x - 1)
    Limits.Valid (⟨0.5, 9⟩ : Limits Float) ∧ Arith.isPositive (0.5 : Float) ∧
      Arith.le (0.5 : Float) Arith.one ∧ Arith.isFinite (0 : Float) ∧
      ∃ r, search ⟨0.5, 9⟩ 0.5 g residual 0 = .ok r ∧ r.trace = [0, 1.25, 0.9375] ∧
        Step 0.5 g 1.25 0.9375 ∧ Arith.le (Arith.abs (1.25 : Float)) bound ∧
        Stuck ⟨0.5, 9⟩ 0.5 g residual r (.undefined (.nonFinite 0.9375)) := by
  intro g residual
  have valid : Limits.Valid (⟨0.5, 9⟩ : Limits Float) := ⟨by decide +kernel, by decide, by decide⟩
  have positive : Arith.isPositive (0.5 : Float) := by decide +kernel
  have atMostOne : Arith.le (0.5 : Float) Arith.one := by decide +kernel
  have finite : Arith.isFinite (0 : Float) := by decide +kernel
  have ran : search ⟨0.5, 9⟩ 0.5 g residual 0 = .ok ⟨0.9375, Arith.nan, 0.3125, 2,
      [0, 1.25, 0.9375], .diverged (.undefined (.nonFinite 0.9375))⟩ := by decide +kernel
  obtain ⟨r, ran', orbit, tame⟩ := search_orbit valid positive atMostOne finite g residual
  obtain rfl := Except.ok.inj (ran.symm.trans ran')
  exact ⟨valid, positive, atMostOne, finite, _, ran, rfl, orbit.steps 1 1.25 0.9375 rfl rfl,
    (tame 0 1.25 rfl).2, orbit.diverged _ rfl⟩

end ScalarSolve.FixedPoint
