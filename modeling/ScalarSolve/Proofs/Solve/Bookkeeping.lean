import ScalarSolve.Arith.Double
import ScalarSolve.Expression
import ScalarSolve.Proofs.Solve.Validation
import Mathlib.Order.Bounds.Basic

/-!
# What every run records

Four loops with about twenty exits write one log of points, and none of them may leave its trace,
its last step and its count of iterations out of step with each other.  A loop keeps a log
*underway*: it tells the points from the start on, and its count and the iterations that are left
make up the limit.  Whatever way a loop ends, a log underway becomes a *consistent* run.  No fact of
arithmetic is used.
-/

namespace ScalarSolve

open Formula

variable {F : Type}

/-! ## Logs -/

theorem Termination.isConverged_iff (how : Termination F) :
    how.isConverged ↔ how = .converged := by
  cases how <;> simp [isConverged]

theorem Termination.message?_eq_none [Numeral F] (how : Termination F) :
    how.message? = none ↔ how = .converged := by
  cases how <;> simp [message?]

namespace Iterates

/-- The last two points of the trace are the last point and the one before it. -/
theorem earlier_of_trace {xs : Iterates F} {front : List F} {x y : F}
    (h : xs.trace = front ++ [x, y]) : xs.last = y ∧ xs.earlier = x :: front.reverse := by
  have reversed := congrArg List.reverse h
  simpa [trace] using reversed

variable [Arith F]

/-- The log of a search from `x₀` with so many iterations left. -/
structure Underway (l : Limits F) (x₀ : F) (left : Nat) (xs : Iterates F) : Prop where
  valid : l.Valid
  starts : xs.trace.head? = some x₀
  still : xs.earlier = [] → xs.delta = Arith.zero
  moved : ∀ x xs', xs.earlier = x :: xs' → xs.delta = Arith.abs (xs.last - x)
  budget : xs.count + left = l.maxIterations

variable {l : Limits F} {x₀ : F} {left : Nat} {xs : Iterates F}

theorem underway_start (valid : l.Valid) (x₀ : F) : Underway l x₀ l.maxIterations (start x₀) where
  valid := valid
  starts := rfl
  still := fun _ ↦ rfl
  moved := fun _ _ h ↦ (nomatch h)
  budget := Nat.zero_add _

/-- A step uses up one iteration. -/
theorem Underway.accept (h : Underway l x₀ (left + 1) xs) (next : F) :
    Underway l x₀ left (xs.accept next) where
  valid := h.valid
  starts := by rw [trace_accept, List.head?_append, h.starts]; rfl
  still := fun none ↦ (nomatch none)
  moved := by
    intro x xs' earlier
    obtain ⟨rfl, -⟩ := List.cons.inj earlier
    rfl
  budget := by
    rw [count_accept]
    have := h.budget
    omega

/-- Valid limits leave an iteration for a second end or seed. -/
theorem underway_accept_start (valid : l.Valid) (x₀ x : F) :
    ((start x₀).accept x).Underway l x₀ (l.maxIterations - 1) := by
  have h : Underway l x₀ (l.maxIterations - 1 + 1) (start x₀) := by
    rw [Nat.sub_add_cancel valid.some_iterations]
    exact underway_start valid x₀
  exact h.accept x

end Iterates

/-! ## Runs -/

variable [Arith F] [Numeral F]

/-- What a run from `x₀` under limits `l` tells about itself is true of its trace. -/
structure Run.Consistent (l : Limits F) (x₀ : F) (r : Run F) : Prop where
  starts : r.trace.head? = some x₀
  ends : r.trace.getLast? = some r.root
  counted : r.trace.length = r.iterations + 1
  within : r.iterations ≤ l.maxIterations
  limited : l.maxIterations ≤ 10000
  still : r.iterations = 0 → r.delta = Arith.zero
  moved : ∀ front x y, r.trace = front ++ [x, y] → r.delta = Arith.abs (y - x)
  converged : r.converged ↔ r.termination = .converged
  silent : r.message? = none ↔ r.termination = .converged
  exhausted : ∀ n, r.termination = .exhausted n →
    n = l.maxIterations ∧ r.iterations = l.maxIterations

namespace Iterates

variable {l : Limits F} {x₀ : F} {left : Nat} {xs : Iterates F}

/-- Every exit of a search is this one. -/
theorem Underway.finish (h : Underway l x₀ left xs) {how : Termination F} (residual : F)
    (spent : ∀ n, how = .exhausted n → n = l.maxIterations ∧ left = 0) :
    (xs.finish how residual).Consistent l x₀ where
  starts := h.starts
  ends := by simp [Iterates.finish, trace]
  counted := xs.length_trace
  within := le_of_le_of_eq (Nat.le_add_right _ _) h.budget
  limited := h.valid.iterations_le
  still := fun none ↦ h.still (List.length_eq_zero_iff.mp none)
  moved := by
    intro front x y trace
    obtain ⟨rfl, earlier⟩ := earlier_of_trace trace
    exact h.moved _ _ earlier
  converged := how.isConverged_iff
  silent := how.message?_eq_none
  exhausted := by
    intro n exhausted
    obtain ⟨rfl, rfl⟩ := spent n exhausted
    exact ⟨rfl, h.budget⟩

theorem Underway.converged (h : Underway l x₀ left xs) (residual : F) :
    (xs.converged residual).Consistent l x₀ :=
  h.finish residual fun _ exhausted ↦ (nomatch exhausted)

theorem Underway.diverged (h : Underway l x₀ left xs) (why : Breakdown F) (residual : F) :
    (xs.diverged why residual).Consistent l x₀ :=
  h.finish residual fun _ exhausted ↦ (nomatch exhausted)

theorem Underway.undefined (h : Underway l x₀ left xs) (e : EvalError F) :
    (xs.undefined e).Consistent l x₀ :=
  h.diverged _ _

theorem Underway.settle (h : Underway l x₀ left xs) (residual : Except (EvalError F) F) :
    (xs.settle residual).Consistent l x₀ := by
  cases residual with
  | ok r => exact h.converged r
  | error e => exact h.undefined e

theorem Underway.exhausted (h : Underway l x₀ 0 xs) (residual : Except (EvalError F) F) :
    (xs.exhausted l.maxIterations residual).Consistent l x₀ := by
  refine h.finish _ ?_
  intro n exhausted
  cases exhausted
  exact ⟨rfl, rfl⟩

end Iterates

/-! ## Loops -/

variable {l : Limits F} {x₀ : F}

theorem Newton.consistent_iterate (f f' : PartialMap F) :
    ∀ {left : Nat} {xs : Iterates F}, xs.Underway l x₀ left →
      (iterate l f f' left xs).Consistent l x₀ := by
  intro left
  induction left with
  | zero =>
      intro xs h
      exact h.exhausted _
  | succ left ih =>
      intro xs h
      unfold iterate
      cases f xs.last with
      | error e => exact h.undefined e
      | ok y =>
          dsimp only
          split
          · exact h.converged y
          · cases next f' xs.last y with
            | error why => exact h.diverged why y
            | ok z =>
                dsimp only
                split
                · exact (h.accept z).settle _
                · exact ih (h.accept z)

theorem FixedPoint.consistent_iterate (w : F) (g residual : PartialMap F) :
    ∀ {left : Nat} {xs : Iterates F}, xs.Underway l x₀ left →
      (iterate l w g residual left xs).Consistent l x₀ := by
  intro left
  induction left with
  | zero =>
      intro xs h
      exact h.exhausted _
  | succ left ih =>
      intro xs h
      unfold iterate
      cases g xs.last with
      | error e => exact h.undefined e
      | ok image =>
          dsimp only
          split
          · exact h.diverged _ _
          · split
            · exact (h.accept _).settle _
            · exact ih (h.accept _)

theorem Bisection.consistent_iterate (f : PartialMap F) :
    ∀ {left : Nat} {e : Enclosure F} {xs : Iterates F}, xs.Underway l x₀ left →
      (iterate l f left e xs).Consistent l x₀ := by
  intro left
  induction left with
  | zero =>
      intro e xs h
      exact h.exhausted _
  | succ left ih =>
      intro e xs h
      unfold iterate
      cases f e.mid with
      | error err => exact h.undefined err
      | ok y =>
          dsimp only
          split
          · exact (h.accept _).converged y
          · exact ih (h.accept _)

theorem Secant.consistent_iterate (f : PartialMap F) :
    ∀ {left : Nat} {p q : Sighting F} {xs : Iterates F}, xs.Underway l x₀ left →
      (iterate l f left p q xs).Consistent l x₀ := by
  intro left
  induction left with
  | zero =>
      intro p q xs h
      exact h.exhausted _
  | succ left ih =>
      intro p q xs h
      unfold iterate
      cases next p q with
      | error why => exact h.diverged why q.y
      | ok z =>
          dsimp only
          cases f z with
          | error e => exact (h.accept z).undefined e
          | ok y =>
              dsimp only
              split
              · exact (h.accept z).converged y
              · exact ih (h.accept z)

/-! ## Before the loops -/

theorem Bisection.consistent_outcome (valid : l.Valid) (f : PartialMap F) (a b : F) :
    (outcome l f a b).Consistent l a := by
  have h := Iterates.underway_start valid a
  unfold outcome
  cases f a with
  | error e => exact h.undefined e
  | ok valueA =>
      dsimp only
      split
      · exact h.converged valueA
      · unfold fromEnds
        cases f b with
        | error e => exact h.diverged _ valueA
        | ok valueB =>
            dsimp only
            split
            · exact (Iterates.underway_accept_start valid a b).converged valueB
            · split
              · exact h.diverged _ valueA
              · exact consistent_iterate f h

theorem Secant.consistent_outcome (valid : l.Valid) (f : PartialMap F) (x₀ x₁ : F) :
    (outcome l f x₀ x₁).Consistent l x₀ := by
  have h := Iterates.underway_start valid x₀
  unfold outcome
  cases f x₀ with
  | error e => exact h.undefined e
  | ok y₀ =>
      dsimp only
      split
      · exact h.converged y₀
      · have h := Iterates.underway_accept_start valid x₀ x₁
        unfold fromSeeds
        cases f x₁ with
        | error e => exact h.undefined e
        | ok y₁ =>
            dsimp only
            split
            · exact h.converged y₁
            · exact consistent_iterate f h

/-! ## Searches -/

theorem Newton.consistent_findRoot {f f' : PartialMap F} {x : F} {r : Run F}
    (h : findRoot l f f' x = .ok r) : r.Consistent l x := by
  obtain ⟨valid, -, rfl⟩ := findRoot_eq_ok.mp h
  exact consistent_iterate f f' (Iterates.underway_start valid x)

theorem FixedPoint.consistent_search {w : F} {g residual : PartialMap F} {x : F} {r : Run F}
    (h : search l w g residual x = .ok r) : r.Consistent l x := by
  obtain ⟨valid, -, -, rfl⟩ := search_eq_ok.mp h
  exact consistent_iterate w g residual (Iterates.underway_start valid x)

theorem Bisection.consistent_findRoot {f : PartialMap F} {a b : F} {r : Run F}
    (h : findRoot l f a b = .ok r) : r.Consistent l a := by
  obtain ⟨valid, -, -, rfl⟩ := findRoot_eq_ok.mp h
  exact consistent_outcome valid f a b

theorem Secant.consistent_findRoot {f : PartialMap F} {x₀ x₁ : F} {r : Run F}
    (h : findRoot l f x₀ x₁ = .ok r) : r.Consistent l x₀ := by
  obtain ⟨valid, -, -, rfl⟩ := findRoot_eq_ok.mp h
  exact consistent_outcome valid f x₀ x₁

theorem Method.consistent_run {m : Method} {p : Problem F} {r : Run F} (h : m.run p = .ok r) :
    r.Consistent p.limits p.x₀ := by
  obtain ⟨e, -, holds, rfl⟩ := run_eq_ok.mp h
  have valid := valid_of_settings holds
  cases m with
  | newton => exact Newton.consistent_iterate _ _ (Iterates.underway_start valid _)
  | fixed => exact FixedPoint.consistent_iterate _ _ _ (Iterates.underway_start valid _)
  | bisection => exact Bisection.consistent_outcome valid _ _ _
  | secant => exact Secant.consistent_outcome valid _ _ _

/-- The ways to start a search: a method on a problem, or a method's own entry with functions in
place of curves. -/
inductive Search (F : Type) [Arith F] where
  | ofMethod (m : Method) (p : Problem F)
  | newton (l : Limits F) (f f' : PartialMap F) (x : F)
  | fixedPoint (l : Limits F) (w : F) (g : PartialMap F) (x : F)
  | bisection (l : Limits F) (f : PartialMap F) (a b : F)
  | secant (l : Limits F) (f : PartialMap F) (x₀ x₁ : F)

namespace Search

def run : Search F → Except (RangeError F) (Run F)
  | ofMethod m p => m.run p
  | newton l f f' x => Newton.findRoot l f f' x
  | fixedPoint l w g x => FixedPoint.findFixedPoint l w g x
  | bisection l f a b => Bisection.findRoot l f a b
  | secant l f x₀ x₁ => Secant.findRoot l f x₀ x₁

def limits : Search F → Limits F
  | ofMethod _ p => p.limits
  | newton l _ _ _ | fixedPoint l _ _ _ | bisection l _ _ _ | secant l _ _ _ => l

/-- Where a search starts: from the first of two ends or seeds. -/
def start : Search F → F
  | ofMethod _ p => p.x₀
  | newton _ _ _ x | fixedPoint _ _ _ x | bisection _ _ x _ | secant _ _ x _ => x

/-- A search that has a run, whatever its functions do, has a consistent one. -/
theorem consistent_of_run {s : Search F} {r : Run F} (h : s.run = .ok r) :
    r.Consistent s.limits s.start := by
  cases s with
  | ofMethod m p => exact Method.consistent_run h
  | newton l f f' x => exact Newton.consistent_findRoot h
  | fixedPoint l w g x => exact FixedPoint.consistent_search h
  | bisection l f a b => exact Bisection.consistent_findRoot h
  | secant l f x₀ x₁ => exact Secant.consistent_findRoot h

/-- Two halvings of an interval find the root of `4*x-1`. -/
def quarter : Search Float :=
  .ofMethod .bisection { Problem.start 0 with
    f := some <| Expression.curveOfFits
      ⟨"4*x-1", ⟨[.const 4, .var, .binary .mul, .const 1, .binary .sub], 2⟩⟩ (by decide)
    x₁ := 1 }

theorem consistent_quarter :
    ∃ r, quarter.run = .ok r ∧ r.trace = [0, 0.5, 0.25] ∧ r.Consistent quarter.limits 0 := by
  have h : quarter.run = .ok ⟨0.25, 0, 0.25, 2, [0, 0.5, 0.25], .converged⟩ := by
    decide +kernel
  exact ⟨_, h, rfl, consistent_of_run h⟩

end Search

end ScalarSolve
