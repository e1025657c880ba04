import ScalarSolve.Proofs.Solve.Validation

/-!
# Refusals

Which problems a method refuses, in terms of the problem alone.  That a function is undefined, flat
or running away has no part in it: whatever is met once the checks hold ends in a run.
-/

namespace ScalarSolve

variable {F : Type} [Arith F]

theorem Limits.valid_iff {l : Limits F} :
    l.Valid ↔ (Arith.isFinite l.tolerance ∧ Arith.isPositive l.tolerance) ∧
      1 ≤ l.maxIterations ∧ l.maxIterations ≤ 10000 := by
  rw [← Bool.and_eq_true]
  exact ⟨fun ⟨step, any, few⟩ ↦ ⟨step, any, few⟩, fun ⟨step, any, few⟩ ↦ ⟨step, any, few⟩⟩

theorem DerivativeMode.checks_hold {mode : DerivativeMode F} :
    (∀ c ∈ mode.checks, c.holds) ↔
      ∀ h, mode = .numeric (some h) → Arith.isFinite h ∧ Arith.isPositive h := by
  rcases mode with _ | (_ | h)
  · simp [checks]
  · simp [checks]
  · simp [checks, Arith.isStep]

namespace Method

variable {m : Method} {p : Problem F}

/-- What a method asks of a problem. -/
theorem checks_hold :
    (∀ c ∈ m.checks p, c.holds) ↔
      (p.required? m).isSome ∧ p.limits.Valid ∧ Arith.isFinite p.x₀ ∧
        (m = bisection ∨ m = secant → Arith.isFinite p.x₁) ∧
        (m = fixed → Arith.isPositive p.relax ∧ Arith.le p.relax Arith.one) ∧
        (m = newton →
          ∀ h, p.derivative = .numeric (some h) → Arith.isFinite h ∧ Arith.isPositive h) := by
  rw [checks, List.forall_mem_cons, ← DerivativeMode.checks_hold, ← Limits.checks_hold]
  refine and_congr_right' ?_
  cases m with
  | newton =>
      simp only [settings, Newton.checks, List.forall_mem_append, List.forall_mem_singleton,
        reduceCtorEq, or_self, false_implies, true_and, true_implies]
      exact and_rotate
  | fixed =>
      simp only [settings, FixedPoint.checks, FixedPoint.isWeight, List.forall_mem_append,
        List.forall_mem_cons, List.not_mem_nil, Bool.and_eq_true, reduceCtorEq, or_self,
        false_implies, implies_true, true_implies, true_and, and_true]
      exact and_congr_right' and_comm
  | bisection =>
      simp only [settings, Bisection.checks, List.forall_mem_append, List.forall_mem_singleton,
        Bool.and_eq_true, reduceCtorEq, or_false, false_implies, true_implies, and_true]
  | secant =>
      simp only [settings, Secant.checks, List.forall_mem_append, List.forall_mem_singleton,
        Bool.and_eq_true, reduceCtorEq, false_or, false_implies, true_implies, and_true]

theorem exists_error : (∃ e, m.run p = .error e) ↔ ¬ ∀ c ∈ m.checks p, c.holds := by
  simp only [run_eq_error, ← Check.violation?_eq_none, ← Option.ne_none_iff_exists', ne_eq]

/-- The checks look at the curves only to see that there is one. -/
theorem checks_map (φ ψ : Curve F → Curve F) :
    m.checks { p with f := p.f.map φ, g := p.g.map ψ } = m.checks p := by
  cases m <;> simp [checks, settings, Problem.required?]

/-- A method refuses a problem if and only if the curve that it works on is missing or a number
that it looks at is out of range.  The refusal states a range that is violated, and it is the same
whatever other curves take the place of those in the problem. -/
theorem refuses_iff [Numeral F] (m : Method) (p : Problem F) :
    ((∃ e, m.run p = .error e) ↔
      p.required? m = none ∨
      ¬ (Arith.isFinite p.limits.tolerance ∧ Arith.isPositive p.limits.tolerance) ∨
      ¬ (1 ≤ p.limits.maxIterations ∧ p.limits.maxIterations ≤ 10000) ∨
      ¬ Arith.isFinite p.x₀ ∨
      (m = bisection ∨ m = secant) ∧ ¬ Arith.isFinite p.x₁ ∨
      m = fixed ∧ ¬ (Arith.isPositive p.relax ∧ Arith.le p.relax Arith.one) ∨
      m = newton ∧ ∃ h, p.derivative = .numeric (some h) ∧
        ¬ (Arith.isFinite h ∧ Arith.isPositive h)) ∧
    (∀ e, m.run p = .error e → ⟨false, e⟩ ∈ m.checks p ∧
      (Failure.range e).message = "Invalid range: " ++ e.detail) ∧
    ∀ (φ ψ : Curve F → Curve F) (e : RangeError F),
      m.run { p with f := p.f.map φ, g := p.g.map ψ } = .error e ↔ m.run p = .error e := by
  refine ⟨?_, fun e h ↦ ⟨Check.mem_of_violation? (run_eq_error.mp h), rfl⟩, ?_⟩
  · rw [exists_error, checks_hold, Limits.valid_iff, ← Option.not_isSome_iff_eq_none]
    simp only [not_and_or, Classical.not_imp, not_forall, or_assoc]
  · intro φ ψ e
    rw [run_eq_error, run_eq_error, checks_map]

end Method

end ScalarSolve
