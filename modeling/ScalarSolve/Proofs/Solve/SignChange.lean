import ScalarSolve.Proofs.Arith.Order
import ScalarSolve.Proofs.Solve.Halving

/-!
# The sign change that bisection keeps

An enclosure carries the value at its lower end only.  That the value at the upper end has the other
sign is written down nowhere: it holds of the two ends that a search starts from, in whatever order
they are given, and the half that bisection goes on with inherits it.  Of doubles this takes that
their equality is symmetric and transitive and that zeros are within every tolerance.
-/

namespace ScalarSolve

open Formula

variable {l : Limits Float} {f : PartialMap Float} {a b : Float} {e : Enclosure Float}
  {points : List Float} {y z : Float}

/-! ## Signs -/

namespace Bisection.Opposed

theorem symm (h : Opposed y z) : Opposed z y where
  left := h.right
  right := h.left
  differ same := h.differ (Double.eq_symm same)

/-- A value with the sign of another one is opposed to whatever that is opposed to. -/
theorem of_same (h : Opposed y z) {y' : Float} (nonzero : ¬ Arith.isZero y')
    (same : Arith.eq (Arith.signum y) (Arith.signum y')) : Opposed y' z where
  left := nonzero
  right := h.right
  differ same' := h.differ (Double.eq_trans same same')

end Bisection.Opposed

theorem Limits.Valid.not_isZero (valid : l.Valid) (away : ¬ l.reached (Arith.abs y)) :
    ¬ Arith.isZero y := by
  intro zero
  have positive := (Bool.and_eq_true_iff.mp valid.tolerance).2
  exact away (Double.abs_le_of_isZero zero positive)

/-! ## Enclosures -/

namespace Enclosure

/-- The ends are among the points, and the function has values of different sign there, of which the
enclosure carries the lower one. -/
structure Crosses (f : PartialMap Float) (points : List Float) (e : Enclosure Float) : Prop where
  lo_mem : e.lo ∈ points
  hi_mem : e.hi ∈ points
  value_lo : f e.lo = .ok e.valueLo
  value_hi : ∃ y, f e.hi = .ok y ∧ Bisection.Opposed e.valueLo y

theorem crosses_between (valueA : f a = .ok y) (valueB : f b = .ok z)
    (opposed : Bisection.Opposed y z) : (between a b y z).Crosses f [b, a] := by
  have mem_a : a ∈ [b, a] := List.mem_of_getLast? rfl
  have mem_b : b ∈ [b, a] := List.mem_cons_self
  unfold between
  split
  · exact ⟨mem_a, mem_b, valueA, z, valueB, opposed⟩
  · exact ⟨mem_b, mem_a, valueB, y, valueA, opposed.symm⟩

/-- The half with the sign change has it between the midpoint and an end. -/
theorem Crosses.narrow (h : e.Crosses f points) (value : f e.mid = .ok y)
    (nonzero : ¬ Arith.isZero y) : (e.narrow y).Crosses f (points ++ [e.mid]) := by
  have mem_mid : e.mid ∈ points ++ [e.mid] := List.mem_append_right _ (List.mem_singleton_self _)
  obtain ⟨z, valueHi, opposed⟩ := h.value_hi
  unfold Enclosure.narrow
  split
  · next same =>
      exact ⟨mem_mid, List.mem_append_left _ h.hi_mem, value, z, valueHi,
        opposed.of_same nonzero same⟩
  · next differ =>
      exact ⟨List.mem_append_left _ h.lo_mem, mem_mid, h.value_lo, y, value,
        ⟨opposed.left, nonzero, differ⟩⟩

end Enclosure

/-! ## Searches -/

namespace Bisection

variable {left : Nat} {xs : Iterates Float} {r : Run Float}

/-- The ends at every stage are ends that the search started from or midpoints before. -/
theorem Stage.crosses (valid : l.Valid) (h : Stage l f a b left e xs) :
    e.Crosses f (b :: xs.trace) := by
  induction h with
  | enter valueA valueB opposed => exact Enclosure.crosses_between valueA valueB opposed
  | narrow before value away wide ih =>
      rw [Iterates.trace_accept]
      exact ih.narrow value (valid.not_isZero away)

/-- A run of bisection has a sign change in every enclosure, and ends for what is the case at an end
or at the midpoint of such an enclosure. -/
structure SignChanges (l : Limits Float) (f : PartialMap Float) (a b : Float) (r : Run Float) :
    Prop where
  stages : ∀ left e xs, Stage l f a b left e xs →
    iterate l f left e xs = r ∧ e.Crosses f (b :: xs.trace)
  converged : r.termination = .converged →
    ((r.root = a ∨ r.root = b) ∧ ∃ y, f r.root = .ok y ∧ Arith.isZero y) ∨
      ∃ left e xs y, Stage l f a b (left + 1) e xs ∧
        r.root = e.lo + Arith.half * (e.hi - e.lo) ∧ f r.root = .ok y ∧
          (l.reached (Arith.abs y) ∨ l.reached (Arith.half * (e.hi - e.lo)))
  exhausted : ∀ n, r.termination = .exhausted n →
    n = l.maxIterations ∧ r.iterations = l.maxIterations ∧
      ∀ i, i < l.maxIterations → ∃ left e xs y, Stage l f a b (left + 1) e xs ∧ xs.count = i ∧
        r.trace[i + 1]? = some (e.lo + Arith.half * (e.hi - e.lo)) ∧
          f (e.lo + Arith.half * (e.hi - e.lo)) = .ok y ∧ ¬ l.reached (Arith.abs y) ∧
            ¬ l.reached (Arith.half * (e.hi - e.lo))

theorem Ending.converged_cases (h : Ending l f a b r) (converged : r.termination = .converged) :
    ((r.root = a ∨ r.root = b) ∧ ∃ y, f r.root = .ok y ∧ Arith.isZero y) ∨
      ∃ left e xs y, Stage l f a b (left + 1) e xs ∧ r.root = e.mid ∧ f r.root = .ok y ∧
        (l.reached (Arith.abs y) ∨ l.reached e.half) := by
  cases h with
  | rootFirst valueA zeroA => exact .inl ⟨.inl rfl, _, valueA, zeroA⟩
  | rootSecond valueA nonzeroA valueB zeroB => exact .inl ⟨.inr rfl, _, valueB, zeroB⟩
  | @converged left e xs y stage value near =>
      exact .inr ⟨left, e, xs, y, stage, rfl, value, near⟩
  | undefinedFirst | undefinedSecond | sameSign | undefined | exhausted => cases converged

theorem Ending.exists_stage_of_exhausted {n : Nat} (h : Ending l f a b r)
    (exhausted : r.termination = .exhausted n) :
    n = l.maxIterations ∧ ∃ e xs, Stage l f a b 0 e xs ∧ r.trace = xs.trace ∧
      r.iterations = xs.count := by
  cases h with
  | @exhausted e xs stage =>
      cases exhausted
      exact ⟨rfl, e, xs, stage, rfl, rfl⟩
  | undefinedFirst | rootFirst | undefinedSecond | rootSecond | sameSign | undefined | converged =>
      cases exhausted

/-- A valid search between finite ends has a run, and throughout it there is a sign change between
two points that have been evaluated. -/
theorem findRoot_signChanges (valid : l.Valid) (finiteA : Arith.isFinite a)
    (finiteB : Arith.isFinite b) (f : PartialMap Float) :
    ∃ r, findRoot l f a b = .ok r ∧ SignChanges l f a b r := by
  refine ⟨_, findRoot_eq_ok.mpr ⟨valid, finiteA, finiteB, rfl⟩, ?_, ?_, ?_⟩
  · exact fun left e xs stage ↦ ⟨stage.iterate_eq, stage.crosses valid⟩
  · exact (ending_outcome l f a b).converged_cases
  · intro n exhausted
    obtain ⟨rfl, e, xs, stage, trace, iterations⟩ :=
      (ending_outcome l f a b).exists_stage_of_exhausted exhausted
    have spent : xs.count = l.maxIterations := (stage.underway valid).budget
    refine ⟨rfl, iterations.trans spent, fun i lt ↦ ?_⟩
    rw [trace]
    exact stage.exists_earlier (spent ▸ lt)

/-- On doubles, the search for a quarter from the wrong side: one halving leaves the ends zero and a
half, where the values are minus one and one, and the midpoint of these two is the root. -/
theorem findRoot_signChanges_quarter :
    let f : PartialMap Float := fun x ↦ .ok (4 * x - 1)
    Limits.Valid (⟨0.125, 9⟩ : Limits Float) ∧ Arith.isFinite (1 : Float) ∧
      Arith.isFinite (0 : Float) ∧ ∃ r, findRoot ⟨0.125, 9⟩ f 1 0 = .ok r ∧ r.root = 0.25 ∧
        Enclosure.Crosses f [0, 1, 0.5] ⟨0, 0.5, -1⟩ ∧
        ∃ left e xs y, Stage ⟨0.125, 9⟩ f 1 0 (left + 1) e xs ∧
          r.root = e.lo + Arith.half * (e.hi - e.lo) ∧ f r.root = .ok y ∧
            ((⟨0.125, 9⟩ : Limits Float).reached (Arith.abs y) ∨
              (⟨0.125, 9⟩ : Limits Float).reached (Arith.half * (e.hi - e.lo))) := by
  intro f
  have valid : Limits.Valid (⟨0.125, 9⟩ : Limits Float) :=
    ⟨by decide +kernel, by decide, by decide⟩
  have finiteA : Arith.isFinite (1 : Float) := by decide +kernel
  have finiteB : Arith.isFinite (0 : Float) := by decide +kernel
  have ran : findRoot ⟨0.125, 9⟩ f 1 0 = .ok ⟨0.25, 0, 0.25, 2, [1, 0.5, 0.25], .converged⟩ := by
    decide +kernel
  have first : Stage ⟨0.125, 9⟩ f 1 0 9 (.between 1 0 3 (-1)) (.start 1) :=
    .enter (by decide +kernel) (by decide +kernel)
      ⟨by decide +kernel, by decide +kernel, by decide +kernel⟩
  have mid : (Enclosure.between 1 0 3 (-1) : Enclosure Float).mid = 0.5 := by decide +kernel
  have half : (Enclosure.between 1 0 3 (-1)).narrow 1 = (⟨0, 0.5, -1⟩ : Enclosure Float) := by
    decide +kernel
  have second : Stage ⟨0.125, 9⟩ f 1 0 8 ⟨0, 0.5, -1⟩ ((Iterates.start 1).accept 0.5) := by
    rw [← half, ← mid]
    exact first.narrow (by decide +kernel) (by decide +kernel) (by decide +kernel)
  obtain ⟨r, ran', changes⟩ := findRoot_signChanges valid finiteA finiteB f
  obtain rfl := Except.ok.inj (ran.symm.trans ran')
  refine ⟨valid, finiteA, finiteB, _, ran, rfl, (changes.stages _ _ _ second).2, ?_⟩
  exact (changes.converged rfl).resolve_left fun ⟨atEnd, _⟩ ↦ absurd atEnd (by decide +kernel)

end Bisection

end ScalarSolve
