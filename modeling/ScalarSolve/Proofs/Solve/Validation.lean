import ScalarSolve.Solve.Problem
import Mathlib.Logic.Basic

/-!
# Which searches are run

A search is refused because of what it is asked for and never because of what its functions do.  It
makes its checks in a fixed order before it evaluates anything, and it is *guarded* by them: the
first check that does not hold is the reason for its refusal, and where all of them hold there is a
run, which is named here.
-/

namespace ScalarSolve

open Formula

variable {F α : Type}

/-! ## Checks -/

/-- A condition, and what is violated where it does not hold. -/
structure Check (F : Type) where
  holds : Bool
  violation : RangeError F

namespace Check

/-- What is violated by the first check that does not hold. -/
def violation? (cs : List (Check F)) : Option (RangeError F) :=
  (cs.find? (!·.holds)).map violation

/-- An answer that is given where all checks hold. -/
def guard (cs : List (Check F)) (answer : Except (RangeError F) α) : Except (RangeError F) α :=
  match violation? cs with
  | some e => .error e
  | none => answer

variable {cs ds : List (Check F)} {b : Bool} {e : RangeError F} {a a' : α}
  {answer : Except (RangeError F) α}

@[simp] theorem guard_nil : guard [] answer = answer := rfl

@[simp] theorem guard_cons :
    guard (⟨b, e⟩ :: cs) answer = if !b then .error e else guard cs answer := by
  cases b <;> rfl

@[simp] theorem guard_append : guard (cs ++ ds) answer = guard cs (guard ds answer) := by
  induction cs with
  | nil => rfl
  | cons c cs ih => rw [List.cons_append, guard_cons, guard_cons, ih]

/-- What is done after checks that may refuse. -/
theorem guard_bind {check : Except (RangeError F) Unit} (h : check = guard cs (.ok ())) :
    (do check; answer) = guard cs answer := by
  rw [h]
  unfold guard
  cases violation? cs <;> rfl

theorem violation?_eq_none : violation? cs = none ↔ ∀ c ∈ cs, c.holds := by
  simp [violation?]

theorem guard_of_hold (h : ∀ c ∈ cs, c.holds) : guard cs answer = answer := by
  rw [guard, violation?_eq_none.mpr h]

/-- A violation is that of a check that does not hold. -/
theorem mem_of_violation? (h : violation? cs = some e) : ⟨false, e⟩ ∈ cs := by
  obtain ⟨⟨b, _⟩, found, rfl⟩ := Option.map_eq_some_iff.mp h
  obtain rfl : b = false := by simpa using List.find?_some found
  exact List.mem_of_find?_eq_some found

theorem guard_eq_error : guard cs (.ok a) = .error e ↔ violation? cs = some e := by
  unfold guard
  cases violation? cs <;> simp

theorem guard_eq_ok : guard cs (.ok a) = .ok a' ↔ (∀ c ∈ cs, c.holds) ∧ a' = a := by
  rw [← violation?_eq_none]
  unfold guard
  cases violation? cs <;> simp [eq_comm]

end Check

/-! ## The checks of searches -/

variable [Arith F]

def Limits.checks (l : Limits F) : List (Check F) :=
  [⟨Arith.isStep l.tolerance, .tolerance l.tolerance⟩,
    ⟨l.maxIterations ≠ 0, .noIterations⟩,
    ⟨l.maxIterations ≤ maxIterationLimit, .iterations l.maxIterations⟩]

def DerivativeMode.checks : DerivativeMode F → List (Check F)
  | numeric (some h) => [⟨Arith.isStep h, .derivativeStep h⟩]
  | numeric none | analytic => []

def Newton.checks (l : Limits F) (x : F) : List (Check F) :=
  l.checks ++ [⟨Arith.isFinite x, .startPoint x⟩]

def FixedPoint.checks (l : Limits F) (w x : F) : List (Check F) :=
  l.checks ++ [⟨isWeight w, .relaxation w⟩, ⟨Arith.isFinite x, .startPoint x⟩]

def Bisection.checks (l : Limits F) (a b : F) : List (Check F) :=
  l.checks ++ [⟨Arith.isFinite a && Arith.isFinite b, .endpoints a b⟩]

def Secant.checks (l : Limits F) (x₀ x₁ : F) : List (Check F) :=
  l.checks ++ [⟨Arith.isFinite x₀ && Arith.isFinite x₁, .seeds x₀ x₁⟩]

/-- The checks of a method that has its expression. -/
def Method.settings (m : Method) (p : Problem F) : List (Check F) :=
  match m with
  | newton => p.derivative.checks ++ Newton.checks p.limits p.x₀
  | fixed => FixedPoint.checks p.limits p.relax p.x₀
  | bisection => Bisection.checks p.limits p.x₀ p.x₁
  | secant => Secant.checks p.limits p.x₀ p.x₁

def Method.checks (m : Method) (p : Problem F) : List (Check F) :=
  ⟨(p.required? m).isSome, .missingExpression m⟩ :: m.settings p

/-! ## Limits -/

/-- Limits that a search accepts. -/
structure Limits.Valid (l : Limits F) : Prop where
  tolerance : Arith.isStep l.tolerance
  some_iterations : 1 ≤ l.maxIterations
  iterations_le : l.maxIterations ≤ maxIterationLimit

theorem Limits.checks_hold {l : Limits F} : (∀ c ∈ l.checks, c.holds) ↔ l.Valid := by
  simp only [checks, List.forall_mem_cons, List.not_mem_nil, decide_eq_true_eq, false_implies,
    implies_true, and_true, ← Nat.one_le_iff_ne_zero]
  exact ⟨fun ⟨step, any, few⟩ ↦ ⟨step, any, few⟩, fun ⟨step, any, few⟩ ↦ ⟨step, any, few⟩⟩

theorem Limits.validate_eq_guard (l : Limits F) : l.validate = Check.guard l.checks (.ok ()) := by
  unfold validate checks
  simp only [Check.guard_cons, Check.guard_nil, ne_eq, decide_not, Bool.not_not, decide_eq_true_eq,
    Bool.not_eq_true', decide_eq_false_iff_not, Nat.not_le]

theorem DerivativeMode.validate_eq_guard (mode : DerivativeMode F) :
    mode.validate = Check.guard mode.checks (.ok ()) := by
  fun_cases validate mode with
  | case1 h step => simp [checks, step]
  | case2 h step => simp [checks, step]
  | case3 => rfl
  | case4 => rfl

/-! ## Searches -/

theorem Newton.findRoot_eq_guard (l : Limits F) (f f' : PartialMap F) (x : F) :
    findRoot l f f' x =
      Check.guard (checks l x) (.ok (iterate l f f' l.maxIterations (.start x))) := by
  unfold findRoot checks
  rw [Check.guard_bind l.validate_eq_guard, Check.guard_append, Check.guard_cons, Check.guard_nil]
  rfl

theorem Newton.findRoot_eq_ok {l : Limits F} {f f' : PartialMap F} {x : F} {r : Run F} :
    findRoot l f f' x = .ok r ↔
      l.Valid ∧ Arith.isFinite x ∧ r = iterate l f f' l.maxIterations (.start x) := by
  rw [findRoot_eq_guard, Check.guard_eq_ok, checks, List.forall_mem_append, Limits.checks_hold,
    List.forall_mem_singleton, and_assoc]

theorem FixedPoint.search_eq_guard (l : Limits F) (w : F) (g residual : PartialMap F) (x : F) :
    search l w g residual x =
      Check.guard (checks l w x) (.ok (iterate l w g residual l.maxIterations (.start x))) := by
  unfold search checks
  rw [Check.guard_bind l.validate_eq_guard, Check.guard_append, Check.guard_cons, Check.guard_cons,
    Check.guard_nil]
  rfl

theorem FixedPoint.search_eq_ok {l : Limits F} {w : F} {g residual : PartialMap F} {x : F}
    {r : Run F} :
    search l w g residual x = .ok r ↔
      l.Valid ∧ isWeight w ∧ Arith.isFinite x ∧
        r = iterate l w g residual l.maxIterations (.start x) := by
  rw [search_eq_guard, Check.guard_eq_ok, checks, List.forall_mem_append, Limits.checks_hold,
    List.forall_mem_cons, List.forall_mem_singleton, and_assoc, and_assoc]

theorem FixedPoint.solve_eq_search (l : Limits F) (w : F) (g : Curve F)
    (f : Option (Curve F)) (x : F) :
    solve l w g f x = search l w g.eval (f.elim (displacement g.eval) (·.eval)) x := by
  cases f <;> rfl

/-- The run of bisection between two ends. -/
def Bisection.outcome (l : Limits F) (f : PartialMap F) (a b : F) : Run F :=
  match f a with
  | .error e => (Iterates.start a).undefined e
  | .ok valueA =>
    if Arith.isZero valueA then (Iterates.start a).converged valueA
    else fromEnds l f a b valueA

theorem Bisection.findRoot_eq_guard (l : Limits F) (f : PartialMap F) (a b : F) :
    findRoot l f a b = Check.guard (checks l a b) (.ok (outcome l f a b)) := by
  unfold findRoot checks outcome
  rw [Check.guard_bind l.validate_eq_guard, Check.guard_append, Check.guard_cons, Check.guard_nil]
  cases f a with
  | error e => rfl
  | ok valueA =>
      dsimp only
      rw [apply_ite Except.ok]
      rfl

theorem Bisection.findRoot_eq_ok {l : Limits F} {f : PartialMap F} {a b : F} {r : Run F} :
    findRoot l f a b = .ok r ↔
      l.Valid ∧ Arith.isFinite a ∧ Arith.isFinite b ∧ r = outcome l f a b := by
  rw [findRoot_eq_guard, Check.guard_eq_ok, checks, List.forall_mem_append, Limits.checks_hold,
    List.forall_mem_singleton, Bool.and_eq_true, and_assoc, and_assoc]

/-- The run of the secant method from two seeds. -/
def Secant.outcome (l : Limits F) (f : PartialMap F) (x₀ x₁ : F) : Run F :=
  match f x₀ with
  | .error e => (Iterates.start x₀).undefined e
  | .ok y =>
    if l.reached (Arith.abs y) then (Iterates.start x₀).converged y
    else fromSeeds l f ⟨x₀, y⟩ x₁

theorem Secant.findRoot_eq_guard (l : Limits F) (f : PartialMap F) (x₀ x₁ : F) :
    findRoot l f x₀ x₁ = Check.guard (checks l x₀ x₁) (.ok (outcome l f x₀ x₁)) := by
  unfold findRoot checks outcome
  rw [Check.guard_bind l.validate_eq_guard, Check.guard_append, Check.guard_cons, Check.guard_nil]
  cases f x₀ with
  | error e => rfl
  | ok y =>
      dsimp only
      rw [apply_ite Except.ok]
      rfl

theorem Secant.findRoot_eq_ok {l : Limits F} {f : PartialMap F} {x₀ x₁ : F} {r : Run F} :
    findRoot l f x₀ x₁ = .ok r ↔
      l.Valid ∧ Arith.isFinite x₀ ∧ Arith.isFinite x₁ ∧ r = outcome l f x₀ x₁ := by
  rw [findRoot_eq_guard, Check.guard_eq_ok, checks, List.forall_mem_append, Limits.checks_hold,
    List.forall_mem_singleton, Bool.and_eq_true, and_assoc, and_assoc]

/-! ## Methods -/

/-- The run of a method that has a curve, where its checks hold. -/
def Method.outcome (m : Method) (p : Problem F) (f : Curve F) : Run F :=
  match m with
  | newton =>
    Newton.iterate p.limits f.eval (p.derivative.slope f) p.limits.maxIterations (.start p.x₀)
  | fixed =>
    FixedPoint.iterate p.limits p.relax f.eval
      (p.f.elim (FixedPoint.displacement f.eval) (·.eval)) p.limits.maxIterations (.start p.x₀)
  | bisection => Bisection.outcome p.limits f.eval p.x₀ p.x₁
  | secant => Secant.outcome p.limits f.eval p.x₀ p.x₁

theorem Method.run_of_some {m : Method} {p : Problem F} {f : Curve F}
    (h : p.required? m = some f) :
    m.run p = Check.guard (m.settings p) (.ok (m.outcome p f)) := by
  unfold run
  rw [h]
  cases m with
  | newton =>
      simp only [settings, Newton.solve, Check.guard_bind p.derivative.validate_eq_guard,
        Newton.findRoot_eq_guard, Check.guard_append]
      rfl
  | fixed => exact (FixedPoint.solve_eq_search _ _ _ _ _).trans (FixedPoint.search_eq_guard ..)
  | bisection => exact Bisection.findRoot_eq_guard ..
  | secant => exact Secant.findRoot_eq_guard ..

/-- Every method checks the limits. -/
theorem Method.valid_of_settings {m : Method} {p : Problem F} (h : ∀ c ∈ m.settings p, c.holds) :
    p.limits.Valid := by
  refine Limits.checks_hold.mp fun c mem ↦ h c ?_
  cases m <;>
    simp [settings, Newton.checks, FixedPoint.checks, Bisection.checks, Secant.checks, mem]

theorem Method.run_eq_ok {m : Method} {p : Problem F} {r : Run F} :
    m.run p = .ok r ↔
      ∃ e, p.required? m = some e ∧ (∀ c ∈ m.settings p, c.holds) ∧ r = m.outcome p e := by
  cases h : p.required? m with
  | none => simp [run, h]
  | some e => simp only [run_of_some h, Check.guard_eq_ok, Option.some.injEq, exists_eq_left']

theorem Method.run_eq_error {m : Method} {p : Problem F} {e : RangeError F} :
    m.run p = .error e ↔ Check.violation? (m.checks p) = some e := by
  unfold checks
  cases h : p.required? m with
  | none => simp [run, h, Check.violation?]
  | some expr => simp [run_of_some h, Check.guard_eq_error, Check.violation?]

/-- Where all checks hold there is a run. -/
theorem Method.exists_run {m : Method} {p : Problem F} (checked : ∀ c ∈ m.checks p, c.holds) :
    ∃ r, m.run p = .ok r := by
  cases result : m.run p with
  | ok r => exact ⟨r, rfl⟩
  | error e =>
      have violated := run_eq_error.mp result
      rw [Check.violation?_eq_none.mpr checked] at violated
      cases violated

end ScalarSolve
