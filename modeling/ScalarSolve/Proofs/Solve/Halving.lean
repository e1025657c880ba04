import ScalarSolve.Arith.Double
import ScalarSolve.Proofs.Expression.Curve
import ScalarSolve.Proofs.Solve.Bisection
import ScalarSolve.Proofs.Solve.Trace

/-!
# The stages of bisection

Bisection looks at its two ends and then halves an enclosure again and again.  What it has at hand
at the start of an iteration is a *stage* of the search: the iterations left, the enclosure and the
points so far.  A stage comes from the one before it by one evaluation, and a search *ends* in one
of eight ways, five of which come before any stage.  What is to be said about all runs of bisection
is said about stages first, by induction, and about the endings then, one by one.
-/

namespace ScalarSolve

open Formula

variable {F : Type} [Arith F]

namespace Bisection

/-- Two values that are not zero and have different signs. -/
structure Opposed (y z : F) : Prop where
  left : ¬ Arith.isZero y
  right : ¬ Arith.isZero z
  differ : ¬ Arith.eq (Arith.signum y) (Arith.signum z)

/-- The search between two ends comes to this stage. -/
inductive Stage (l : Limits F) (f : PartialMap F) (a b : F) :
    Nat → Enclosure F → Iterates F → Prop
  | enter {ya yb : F} (valueA : f a = .ok ya) (valueB : f b = .ok yb) (opposed : Opposed ya yb) :
      Stage l f a b l.maxIterations (.between a b ya yb) (.start a)
  | narrow {left : Nat} {e : Enclosure F} {xs : Iterates F} {y : F}
      (before : Stage l f a b (left + 1) e xs) (value : f e.mid = .ok y)
      (away : ¬ l.reached (Arith.abs y)) (wide : ¬ l.reached e.half) :
      Stage l f a b left (e.narrow y) (xs.accept e.mid)

/-- The search between two ends ends with this run. -/
inductive Ending (l : Limits F) (f : PartialMap F) (a b : F) : Run F → Prop
  | undefinedFirst {err : EvalError F} (valueA : f a = .error err) :
      Ending l f a b ((Iterates.start a).undefined err)
  | rootFirst {ya : F} (valueA : f a = .ok ya) (zeroA : Arith.isZero ya) :
      Ending l f a b ((Iterates.start a).converged ya)
  | undefinedSecond {ya : F} {err : EvalError F} (valueA : f a = .ok ya)
      (nonzeroA : ¬ Arith.isZero ya) (valueB : f b = .error err) :
      Ending l f a b ((Iterates.start a).diverged (.undefined err) ya)
  | rootSecond {ya yb : F} (valueA : f a = .ok ya) (nonzeroA : ¬ Arith.isZero ya)
      (valueB : f b = .ok yb) (zeroB : Arith.isZero yb) :
      Ending l f a b (((Iterates.start a).accept b).converged yb)
  | sameSign {ya yb : F} (valueA : f a = .ok ya) (nonzeroA : ¬ Arith.isZero ya)
      (valueB : f b = .ok yb) (nonzeroB : ¬ Arith.isZero yb)
      (same : Arith.eq (Arith.signum ya) (Arith.signum yb)) :
      Ending l f a b
        ((Iterates.start a).diverged (.noSignChange (Arith.min a b) (Arith.max a b)) ya)
  | undefined {left : Nat} {e : Enclosure F} {xs : Iterates F} {err : EvalError F}
      (stage : Stage l f a b (left + 1) e xs) (value : f e.mid = .error err) :
      Ending l f a b (xs.undefined err)
  | converged {left : Nat} {e : Enclosure F} {xs : Iterates F} {y : F}
      (stage : Stage l f a b (left + 1) e xs) (value : f e.mid = .ok y)
      (near : l.reached (Arith.abs y) ∨ l.reached e.half) :
      Ending l f a b ((xs.accept e.mid).converged y)
  | exhausted {e : Enclosure F} {xs : Iterates F} (stage : Stage l f a b 0 e xs) :
      Ending l f a b (xs.exhausted l.maxIterations (f xs.last))

variable {l : Limits F} {f : PartialMap F} {a b : F} {left : Nat} {e : Enclosure F}
  {xs : Iterates F} {r : Run F}

theorem ending_iterate (stage : Stage l f a b left e xs) :
    Ending l f a b (iterate l f left e xs) := by
  induction left generalizing e xs with
  | zero => exact .exhausted stage
  | succ left ih =>
      unfold iterate
      cases value : f e.mid with
      | error err => exact .undefined stage value
      | ok y =>
          dsimp only
          split
          · next near =>
              rw [Bool.or_eq_true] at near
              exact .converged stage value near
          · next far =>
              rw [Bool.or_eq_true, not_or] at far
              exact ih (.narrow stage value far.1 far.2)

/-- Whatever the function, a search ends in one of the eight ways. -/
theorem ending_outcome (l : Limits F) (f : PartialMap F) (a b : F) :
    Ending l f a b (outcome l f a b) := by
  unfold outcome fromEnds
  cases valueA : f a with
  | error err => exact .undefinedFirst valueA
  | ok ya =>
      dsimp only
      split
      · next zeroA => exact .rootFirst valueA zeroA
      · next nonzeroA =>
          cases valueB : f b with
          | error err => exact .undefinedSecond valueA nonzeroA valueB
          | ok yb =>
              dsimp only
              split
              · next zeroB => exact .rootSecond valueA nonzeroA valueB zeroB
              · next nonzeroB =>
                  split
                  · next same => exact .sameSign valueA nonzeroA valueB nonzeroB same
                  · next differ =>
                      exact ending_iterate (.enter valueA valueB ⟨nonzeroA, nonzeroB, differ⟩)

/-! ## What holds at every stage -/

theorem outcome_of_opposed {ya yb : F} (valueA : f a = .ok ya) (valueB : f b = .ok yb)
    (opposed : Opposed ya yb) :
    outcome l f a b = iterate l f l.maxIterations (.between a b ya yb) (.start a) :=
  outcome_of_signs valueA valueB (Bool.eq_false_of_not_eq_true opposed.left)
    (Bool.eq_false_of_not_eq_true opposed.right) (Bool.eq_false_of_not_eq_true opposed.differ)

namespace Stage

/-- From every stage the search goes on to its one outcome. -/
theorem iterate_eq (h : Stage l f a b left e xs) : iterate l f left e xs = outcome l f a b := by
  induction h with
  | enter valueA valueB opposed => exact (outcome_of_opposed valueA valueB opposed).symm
  | narrow before value away wide ih =>
      rw [← ih, iterate, value]
      dsimp only
      rw [if_neg]
      rw [Bool.or_eq_true, not_or]
      exact ⟨away, wide⟩

theorem underway (valid : l.Valid) (h : Stage l f a b left e xs) : xs.Underway l a left := by
  induction h with
  | enter => exact Iterates.underway_start valid a
  | narrow before value away wide ih => exact ih.accept _

/-- The function has a value at the last point. -/
theorem value_last (h : Stage l f a b left e xs) : ∃ y, f xs.last = .ok y := by
  cases h with
  | enter valueA valueB opposed => exact ⟨_, valueA⟩
  | narrow before value away wide => exact ⟨_, value⟩

/-- Every point behind the first is the midpoint of an earlier stage, where neither test held. -/
theorem exists_earlier (h : Stage l f a b left e xs) {i : Nat} (lt : i < xs.count) :
    ∃ left' e' xs' y, Stage l f a b (left' + 1) e' xs' ∧ xs'.count = i ∧
      xs.trace[i + 1]? = some e'.mid ∧ f e'.mid = .ok y ∧ ¬ l.reached (Arith.abs y) ∧
        ¬ l.reached e'.half := by
  induction h with
  | enter => exact absurd lt (Nat.not_lt_zero i)
  | @narrow left e xs y before value away wide ih =>
      rcases Nat.lt_or_eq_of_le (Nat.le_of_lt_succ lt) with earlier | now
      · change i < xs.count at earlier
        obtain ⟨left', e', xs', y', stage, count, point, rest⟩ := ih earlier
        rw [Iterates.getElem?_accept_of_le (by omega)]
        exact ⟨left', e', xs', y', stage, count, point, rest⟩
      · change i = xs.count at now
        refine ⟨left, e, xs, y, before, now.symm, ?_, value, away, wide⟩
        rw [now, Iterates.getElem?_accept, if_pos rfl]

end Stage

/-! ## The residual -/

/-- The residual is the value at the root, unless the search breaks down at a midpoint. -/
theorem Ending.reports (h : Ending l f a b r)
    (defined : ∀ left e xs, Stage l f a b (left + 1) e xs → ∃ y, f e.mid = .ok y) :
    r.Reports f := by
  cases h with
  | undefinedFirst valueA => exact Iterates.reports_finish_nan valueA
  | rootFirst valueA zeroA => exact Iterates.reports_finish valueA
  | undefinedSecond valueA nonzeroA valueB => exact Iterates.reports_finish valueA
  | rootSecond valueA nonzeroA valueB zeroB => exact Iterates.reports_finish valueB
  | sameSign valueA => exact Iterates.reports_finish valueA
  | undefined stage value =>
      obtain ⟨y, value'⟩ := defined _ _ _ stage
      cases value.symm.trans value'
  | converged stage value near => exact Iterates.reports_finish value
  | exhausted stage => exact Iterates.reports_exhausted f _

theorem Stage.outcome_of_undefined (h : Stage l f a b (left + 1) e xs) {err : EvalError F}
    (undefined : f e.mid = .error err) : outcome l f a b = xs.undefined err := by
  rw [← h.iterate_eq, iterate, undefined]

/-- A valid search between finite ends has a run, and its residual is the value at its root or,
where there is none, undefined.  There is one exception: a search that comes to a midpoint without a
value ends at the point before, and though the function has a value there, the residual is
undefined. -/
theorem findRoot_residual (valid : l.Valid) (finiteA : Arith.isFinite a)
    (finiteB : Arith.isFinite b) (f : PartialMap F) :
    ∃ r, findRoot l f a b = .ok r ∧
      ((∀ left e xs, Stage l f a b (left + 1) e xs → ∃ y, f e.mid = .ok y) → r.Reports f) ∧
      ∀ left e xs err, Stage l f a b (left + 1) e xs → f e.mid = .error err →
        r.termination = .diverged (.undefined err) ∧ r.root = xs.last ∧
          (∃ y, f r.root = .ok y) ∧ r.residual = Arith.nan := by
  refine ⟨_, findRoot_eq_ok.mpr ⟨valid, finiteA, finiteB, rfl⟩, ?_, ?_⟩
  · exact (ending_outcome l f a b).reports
  · intro left e xs err stage undefined
    rw [stage.outcome_of_undefined undefined]
    exact ⟨rfl, rfl, stage.value_last, rfl⟩

/-- On doubles, a search that has run out of iterations tells the value at its last midpoint. -/
theorem findRoot_residual_line :
    let f : PartialMap Float := fun x ↦ .ok (4 * x - 1)
    Limits.Valid (⟨0.125, 1⟩ : Limits Float) ∧ Arith.isFinite (0 : Float) ∧
      Arith.isFinite (1 : Float) ∧ ∃ r, findRoot ⟨0.125, 1⟩ f 0 1 = .ok r ∧
        r.termination = .exhausted 1 ∧ f r.root = .ok 1 ∧ r.residual = 1 := by
  intro f
  have valid : Limits.Valid (⟨0.125, 1⟩ : Limits Float) :=
    ⟨by decide +kernel, by decide, by decide⟩
  have finiteA : Arith.isFinite (0 : Float) := by decide +kernel
  have finiteB : Arith.isFinite (1 : Float) := by decide +kernel
  have ran : findRoot ⟨0.125, 1⟩ f 0 1 = .ok ⟨0.5, 1, 0.5, 1, [0, 0.5], .exhausted 1⟩ := by
    decide +kernel
  obtain ⟨r, ran', reports, -⟩ := findRoot_residual valid finiteA finiteB f
  obtain rfl := Except.ok.inj (ran.symm.trans ran')
  have value : f 0.5 = .ok 1 := by decide +kernel
  exact ⟨valid, finiteA, finiteB, _, ran, rfl, value,
    (reports fun _ _ _ _ ↦ ⟨_, rfl⟩).value 1 value⟩

open Curve (reciprocal draws_reciprocal)

/-- On doubles, a search for a root of `1/x` breaks down at the pole and ends at minus one, where
the value is minus one and the residual is none. -/
theorem residual_before_pole :
    Expression.Draws "1/x" reciprocal ∧ Limits.Valid (⟨0.125, 9⟩ : Limits Float) ∧
      Arith.isFinite (-1 : Float) ∧ Arith.isFinite (1 : Float) ∧
      ∃ r, solve ⟨0.125, 9⟩ reciprocal (-1) 1 = .ok r ∧ r.root = -1 ∧
        reciprocal.eval r.root = .ok (-1) ∧ r.residual.isNaN ∧ ¬ r.Reports reciprocal.eval := by
  have ran : solve ⟨0.125, 9⟩ reciprocal (-1) 1 =
      .ok ⟨-1, Arith.nan, 0, 0, [-1], .diverged (.undefined (.divisionByZero 0))⟩ := by
    decide +kernel
  have value : reciprocal.eval (-1) = .ok (-1) := by decide +kernel
  refine ⟨draws_reciprocal, ⟨by decide +kernel, by decide, by decide⟩, by decide +kernel,
    by decide +kernel, _, ran, rfl, value, by decide +kernel, fun reports ↦ ?_⟩
  have different : (Arith.nan : Float) ≠ -1 := by decide +kernel
  exact different (reports.value _ value)

end Bisection

end ScalarSolve
