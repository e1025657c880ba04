import ScalarSolve.Proofs.Arith.Order
import ScalarSolve.Proofs.Solve.Bookkeeping

/-!
# Stricter and longer searches

The tolerance and the number of iterations decide where a search stops and nothing else.  Under a
smaller tolerance and with more iterations, a search goes through the same points and perhaps
through more after them; under the same tolerance, a search that has not run out of iterations ends
in the same way.

Each loop is compared with itself under the other limits, turn by turn.  Where both go on the rest
is compared, and where only one goes on, its trace grows from the one that the other is left with.
-/

namespace ScalarSolve

open Formula

variable {F : Type}

/-! ## Two sets of limits -/

/-- A run that is another one continued: it goes through the same points first, and it is the same
run if the tolerances are the same and the other run had no need of more iterations. -/
structure Run.Continues (l' l : Limits F) (r' r : Run F) : Prop where
  trace : r.trace <+: r'.trace
  same : l'.tolerance = l.tolerance → (∀ n, r.termination ≠ .exhausted n) → r' = r

/-- A test that is harder to pass under stricter limits. -/
structure Limits.Harder (l' l : Limits F) (c' c : Bool) : Prop where
  passes : c' → c
  same : l'.tolerance = l.tolerance → c' = c

variable {l l' : Limits F}

theorem Limits.Harder.or {c' c d' d : Bool} (hc : Harder l' l c' c) (hd : Harder l' l d' d) :
    Harder l' l (c' || d') (c || d) where
  passes h := by
    rw [Bool.or_eq_true] at h ⊢
    exact h.imp hc.passes hd.passes
  same tolerance := by rw [hc.same tolerance, hd.same tolerance]

namespace Run.Continues

theorem refl (r : Run F) : r.Continues l' l r where
  trace := List.prefix_rfl
  same := fun _ _ ↦ rfl

/-- Both searches test whether to stop, and the stricter one may go on where the other one stops. -/
theorem test {c' c : Bool} (harder : Limits.Harder l' l c' c) {stop go' go : Run F}
    (grown : stop.trace <+: go'.trace) (rest : go'.Continues l' l go) :
    (if c' then stop else go').Continues l' l (if c then stop else go) := by
  cases c with
  | true =>
      cases c' with
      | true => exact refl stop
      | false => exact ⟨grown, fun tolerance ↦ nomatch harder.same tolerance⟩
  | false =>
      cases c' with
      | true => exact nomatch harder.passes rfl
      | false => exact rest

end Run.Continues

/-- Two answers to one question under different limits: they are refused alike, or the run of one is
that of the other continued. -/
inductive AnswerContinues (l' l : Limits F) :
    Except (RangeError F) (Run F) → Except (RangeError F) (Run F) → Prop
  | refused (e : RangeError F) : AnswerContinues l' l (.error e) (.error e)
  | ran {r' r : Run F} (h : r'.Continues l' l r) : AnswerContinues l' l (.ok r') (.ok r)

theorem AnswerContinues.guard {r' r : Run F} (h : r'.Continues l' l r) (cs : List (Check F)) :
    AnswerContinues l' l (Check.guard cs (.ok r')) (Check.guard cs (.ok r)) := by
  unfold Check.guard
  cases Check.violation? cs with
  | some e => exact .refused e
  | none => exact .ran h

variable [Arith F]

/-- A run that has used up its iterations is continued by every run whose trace grows from its
log. -/
theorem Run.Continues.exhausted {xs : Iterates F} {limit : Nat}
    {residual : Except (EvalError F) F} {r' : Run F} (grown : xs.trace <+: r'.trace) :
    r'.Continues l' l (xs.exhausted limit residual) where
  trace := grown
  same := fun _ spent ↦ (spent limit rfl).elim

/-- Limits that let a search go on at least as long as others. -/
structure Limits.Extends (l' l : Limits F) : Prop where
  stricter : Arith.le l'.tolerance l.tolerance
  longer : l.maxIterations ≤ l'.maxIterations

theorem Limits.Extends.reached (trans : ∀ a b c : F, Arith.le a b → Arith.le b c → Arith.le a c)
    (ext : l'.Extends l) (d : F) : Harder l' l (l'.reached d) (l.reached d) where
  passes h := trans _ _ _ h ext.stricter
  same tolerance := by rw [Limits.reached, Limits.reached, tolerance]

/-! ## Traces grow -/

namespace Iterates

variable (xs : Iterates F)

@[simp] theorem trace_settle (r : Except (EvalError F) F) : (xs.settle r).trace = xs.trace := by
  cases r <;> rfl

theorem prefix_settle (r : Except (EvalError F) F) : xs.trace <+: (xs.settle r).trace := by
  cases r <;> exact List.prefix_rfl

theorem prefix_accept (next : F) : xs.trace <+: (xs.accept next).trace := by
  rw [trace_accept]
  exact List.prefix_append _ _

end Iterates

theorem Newton.prefix_iterate (f f' : PartialMap F) (left : Nat) :
    ∀ xs : Iterates F, xs.trace <+: (iterate l f f' left xs).trace := by
  induction left with
  | zero => exact fun xs ↦ List.prefix_rfl
  | succ left ih =>
      intro xs
      unfold iterate
      cases f xs.last with
      | error e => exact List.prefix_rfl
      | ok y =>
          dsimp only
          split
          · exact List.prefix_rfl
          · cases next f' xs.last y with
            | error why => exact List.prefix_rfl
            | ok z =>
                dsimp only
                split
                · exact (xs.prefix_accept z).trans (Iterates.prefix_settle _ _)
                · exact (xs.prefix_accept z).trans (ih _)

theorem FixedPoint.prefix_iterate (w : F) (g residual : PartialMap F) (left : Nat) :
    ∀ xs : Iterates F, xs.trace <+: (iterate l w g residual left xs).trace := by
  induction left with
  | zero => exact fun xs ↦ List.prefix_rfl
  | succ left ih =>
      intro xs
      unfold iterate
      cases g xs.last with
      | error e => exact List.prefix_rfl
      | ok image =>
          dsimp only
          split
          · exact List.prefix_rfl
          · split
            · exact (xs.prefix_accept _).trans (Iterates.prefix_settle _ _)
            · exact (xs.prefix_accept _).trans (ih _)

theorem Bisection.prefix_iterate (f : PartialMap F) (left : Nat) :
    ∀ (e : Enclosure F) (xs : Iterates F), xs.trace <+: (iterate l f left e xs).trace := by
  induction left with
  | zero => exact fun e xs ↦ List.prefix_rfl
  | succ left ih =>
      intro e xs
      unfold iterate
      cases f e.mid with
      | error err => exact List.prefix_rfl
      | ok y =>
          dsimp only
          split
          · exact xs.prefix_accept _
          · exact (xs.prefix_accept _).trans (ih _ _)

theorem Secant.prefix_iterate (f : PartialMap F) (left : Nat) :
    ∀ (p q : Sighting F) (xs : Iterates F), xs.trace <+: (iterate l f left p q xs).trace := by
  induction left with
  | zero => exact fun p q xs ↦ List.prefix_rfl
  | succ left ih =>
      intro p q xs
      unfold iterate
      cases next p q with
      | error why => exact List.prefix_rfl
      | ok z =>
          dsimp only
          cases f z with
          | error e => exact xs.prefix_accept z
          | ok y =>
              dsimp only
              split
              · exact xs.prefix_accept z
              · exact (xs.prefix_accept z).trans (ih _ _ _)

theorem Secant.prefix_fromSeeds (f : PartialMap F) (p : Sighting F) (x : F) :
    (Iterates.start p.x).trace <+: (fromSeeds l f p x).trace := by
  have grown := (Iterates.start p.x).prefix_accept x
  unfold fromSeeds
  cases f x with
  | error e => exact grown
  | ok y =>
      dsimp only
      split
      · exact grown
      · exact grown.trans (prefix_iterate f _ _ _ _)

/-! ## Loops -/

section

variable (trans : ∀ a b c : F, Arith.le a b → Arith.le b c → Arith.le a c)

include trans

theorem Newton.continues_iterate (ext : l'.Extends l) (f f' : PartialMap F) :
    ∀ {left left' : Nat} (xs : Iterates F), left ≤ left' →
      (iterate l' f f' left' xs).Continues l' l (iterate l f f' left xs) := by
  intro left
  induction left with
  | zero => exact fun xs _ ↦ .exhausted (prefix_iterate f f' _ xs)
  | succ left ih =>
      rintro (_ | left') xs le
      · cases le
      · unfold iterate
        cases f xs.last with
        | error e => exact .refl _
        | ok y =>
            dsimp only
            cases next f' xs.last y with
            | error why => exact .test (ext.reached trans _) List.prefix_rfl (.refl _)
            | ok z =>
                dsimp only
                have grown := prefix_iterate (l := l') f f' left' (xs.accept z)
                refine .test (ext.reached trans _) ?_ ?_
                · refine (xs.prefix_accept z).trans ?_
                  split
                  · exact (xs.accept z).prefix_settle _
                  · exact grown
                · refine .test (ext.reached trans _) ?_ (ih _ (Nat.le_of_succ_le_succ le))
                  rwa [Iterates.trace_settle]

theorem FixedPoint.continues_iterate (ext : l'.Extends l) (w : F) (g residual : PartialMap F) :
    ∀ {left left' : Nat} (xs : Iterates F), left ≤ left' →
      (iterate l' w g residual left' xs).Continues l' l (iterate l w g residual left xs) := by
  intro left
  induction left with
  | zero => exact fun xs _ ↦ .exhausted (prefix_iterate w g residual _ xs)
  | succ left ih =>
      rintro (_ | left') xs le
      · cases le
      · unfold iterate
        cases g xs.last with
        | error e => exact .refl _
        | ok image =>
            dsimp only
            split
            · exact .refl _
            · refine .test (ext.reached trans _) ?_ (ih _ (Nat.le_of_succ_le_succ le))
              rw [Iterates.trace_settle]
              exact prefix_iterate w g residual left' _

theorem Bisection.continues_iterate (ext : l'.Extends l) (f : PartialMap F) :
    ∀ {left left' : Nat} (e : Enclosure F) (xs : Iterates F), left ≤ left' →
      (iterate l' f left' e xs).Continues l' l (iterate l f left e xs) := by
  intro left
  induction left with
  | zero => exact fun e xs _ ↦ .exhausted (prefix_iterate f _ e xs)
  | succ left ih =>
      rintro (_ | left') e xs le
      · cases le
      · unfold iterate
        cases f e.mid with
        | error err => exact .refl _
        | ok y =>
            dsimp only
            refine .test (.or (ext.reached trans _) (ext.reached trans _)) ?_
              (ih _ _ (Nat.le_of_succ_le_succ le))
            exact prefix_iterate f left' _ (xs.accept e.mid)

theorem Secant.continues_iterate (ext : l'.Extends l) (f : PartialMap F) :
    ∀ {left left' : Nat} (p q : Sighting F) (xs : Iterates F), left ≤ left' →
      (iterate l' f left' p q xs).Continues l' l (iterate l f left p q xs) := by
  intro left
  induction left with
  | zero => exact fun p q xs _ ↦ .exhausted (prefix_iterate f _ p q xs)
  | succ left ih =>
      rintro (_ | left') p q xs le
      · cases le
      · unfold iterate
        cases next p q with
        | error why => exact .refl _
        | ok z =>
            dsimp only
            cases f z with
            | error e => exact .refl _
            | ok y =>
                dsimp only
                refine .test (.or (ext.reached trans _) (ext.reached trans _)) ?_
                  (ih _ _ _ (Nat.le_of_succ_le_succ le))
                exact prefix_iterate f left' _ _ (xs.accept z)

/-! ## Before the loops -/

theorem Bisection.continues_outcome (ext : l'.Extends l) (f : PartialMap F) (a b : F) :
    (outcome l' f a b).Continues l' l (outcome l f a b) := by
  unfold outcome fromEnds
  cases f a with
  | error e => exact .refl _
  | ok valueA =>
      dsimp only
      split
      · exact .refl _
      · cases f b with
        | error e => exact .refl _
        | ok valueB =>
            dsimp only
            split
            · exact .refl _
            · split
              · exact .refl _
              · exact continues_iterate trans ext f _ _ ext.longer

theorem Secant.continues_outcome (ext : l'.Extends l) (f : PartialMap F) (x₀ x₁ : F) :
    (outcome l' f x₀ x₁).Continues l' l (outcome l f x₀ x₁) := by
  have longer : l.maxIterations - 1 ≤ l'.maxIterations - 1 := Nat.sub_le_sub_right ext.longer 1
  unfold outcome
  cases f x₀ with
  | error e => exact .refl _
  | ok y₀ =>
      dsimp only
      have seeds : (fromSeeds l' f ⟨x₀, y₀⟩ x₁).Continues l' l (fromSeeds l f ⟨x₀, y₀⟩ x₁) := by
        unfold fromSeeds
        cases f x₁ with
        | error e => exact .refl _
        | ok y₁ =>
            refine .test (ext.reached trans _) ?_ (continues_iterate trans ext f _ _ _ longer)
            exact prefix_iterate f _ _ _ _
      exact .test (ext.reached trans _) (prefix_fromSeeds f ⟨x₀, y₀⟩ x₁) seeds

theorem Method.continues_outcome (m : Method) {p : Problem F} (ext : l'.Extends p.limits)
    (f : Curve F) :
    (m.outcome { p with limits := l' } f).Continues l' p.limits (m.outcome p f) := by
  cases m with
  | newton => exact Newton.continues_iterate trans ext _ _ _ ext.longer
  | fixed => exact FixedPoint.continues_iterate trans ext _ _ _ _ ext.longer
  | bisection => exact Bisection.continues_outcome trans ext _ _ _
  | secant => exact Secant.continues_outcome trans ext _ _ _

end

/-! ## Answers -/

/-- Valid limits refuse nothing. -/
theorem Limits.Valid.guard {α : Type} (valid : l.Valid) (cs : List (Check F))
    (answer : Except (RangeError F) α) :
    Check.guard (l.checks ++ cs) answer = Check.guard cs answer := by
  rw [Check.guard_append, Check.guard_of_hold (Limits.checks_hold.mpr valid)]

theorem Method.guard_settings {m : Method} {p : Problem F} (valid' : l'.Valid)
    (valid : p.limits.Valid) (answer : Except (RangeError F) (Run F)) :
    Check.guard (m.settings { p with limits := l' }) answer =
      Check.guard (m.settings p) answer := by
  cases m <;>
    simp only [settings, Newton.checks, FixedPoint.checks, Bisection.checks, Secant.checks,
      Check.guard_append, Check.guard_of_hold (Limits.checks_hold.mpr valid),
      Check.guard_of_hold (Limits.checks_hold.mpr valid')]

section

variable (trans : ∀ a b c : F, Arith.le a b → Arith.le b c → Arith.le a c)

include trans

theorem Newton.continues_findRoot (ext : l'.Extends l) (valid' : l'.Valid) (valid : l.Valid)
    (f f' : PartialMap F) (x : F) :
    AnswerContinues l' l (findRoot l' f f' x) (findRoot l f f' x) := by
  rw [findRoot_eq_guard, findRoot_eq_guard, checks, checks, valid'.guard, valid.guard]
  exact .guard (continues_iterate trans ext f f' _ ext.longer) _

theorem FixedPoint.continues_search (ext : l'.Extends l) (valid' : l'.Valid) (valid : l.Valid)
    (w : F) (g residual : PartialMap F) (x : F) :
    AnswerContinues l' l (search l' w g residual x) (search l w g residual x) := by
  rw [search_eq_guard, search_eq_guard, checks, checks, valid'.guard, valid.guard]
  exact .guard (continues_iterate trans ext w g residual _ ext.longer) _

theorem Bisection.continues_findRoot (ext : l'.Extends l) (valid' : l'.Valid) (valid : l.Valid)
    (f : PartialMap F) (a b : F) :
    AnswerContinues l' l (findRoot l' f a b) (findRoot l f a b) := by
  rw [findRoot_eq_guard, findRoot_eq_guard, checks, checks, valid'.guard, valid.guard]
  exact .guard (continues_outcome trans ext f a b) _

theorem Secant.continues_findRoot (ext : l'.Extends l) (valid' : l'.Valid) (valid : l.Valid)
    (f : PartialMap F) (x₀ x₁ : F) :
    AnswerContinues l' l (findRoot l' f x₀ x₁) (findRoot l f x₀ x₁) := by
  rw [findRoot_eq_guard, findRoot_eq_guard, checks, checks, valid'.guard, valid.guard]
  exact .guard (continues_outcome trans ext f x₀ x₁) _

theorem Method.continues_run (m : Method) {p : Problem F} (ext : l'.Extends p.limits)
    (valid' : l'.Valid) (valid : p.limits.Valid) :
    AnswerContinues l' p.limits (m.run { p with limits := l' }) (m.run p) := by
  cases h : p.required? m with
  | none =>
      have h' : Problem.required? { p with limits := l' } m = none := h
      simp only [run, h, h']
      exact .refused _
  | some f =>
      have h' : Problem.required? { p with limits := l' } m = some f := h
      rw [run_of_some h, run_of_some h', guard_settings valid' valid]
      exact .guard (continues_outcome trans m ext f) _

end

namespace Search

/-- The same search under other limits. -/
def under (l : Limits F) : Search F → Search F
  | ofMethod m p => ofMethod m { p with limits := l }
  | newton _ f f' x => newton l f f' x
  | fixedPoint _ w g x => fixedPoint l w g x
  | bisection _ f a b => bisection l f a b
  | secant _ f x₀ x₁ => secant l f x₀ x₁

theorem continues_run (trans : ∀ a b c : F, Arith.le a b → Arith.le b c → Arith.le a c)
    (s : Search F) (ext : l.Extends s.limits) (valid' : l.Valid) (valid : s.limits.Valid) :
    AnswerContinues l s.limits (s.under l).run s.run := by
  cases s with
  | ofMethod m p => exact m.continues_run trans ext valid' valid
  | newton _ f f' x => exact Newton.continues_findRoot trans ext valid' valid f f' x
  | fixedPoint _ w g x => exact FixedPoint.continues_search trans ext valid' valid w g _ x
  | bisection _ f a b => exact Bisection.continues_findRoot trans ext valid' valid f a b
  | secant _ f x₀ x₁ => exact Secant.continues_findRoot trans ext valid' valid f x₀ x₁

/-- A search under a smaller tolerance and with at least as many iterations is refused for the same
reason, or it goes through the points of the first search before any others; and where the
tolerances are equal and the first search did not run out of iterations, the runs are the same.  Of
arithmetic only this is used, that comparison is transitive. -/
theorem run_under_stricter (trans : ∀ a b c : F, Arith.le a b → Arith.le b c → Arith.le a c)
    (s : Search F) (l : Limits F) (valid : s.limits.Valid) (valid' : l.Valid)
    (stricter : Arith.le l.tolerance s.limits.tolerance)
    (longer : s.limits.maxIterations ≤ l.maxIterations) :
    (∀ e, s.run = .error e → (s.under l).run = .error e) ∧
      ∀ r, s.run = .ok r → ∃ r', (s.under l).run = .ok r' ∧ r.trace <+: r'.trace ∧
        (l.tolerance = s.limits.tolerance → (∀ n, r.termination ≠ .exhausted n) → r' = r) := by
  have answers := s.continues_run trans ⟨stricter, longer⟩ valid' valid
  generalize (s.under l).run = answer' at answers ⊢
  generalize s.run = answer at answers ⊢
  cases answers with
  | refused e => exact ⟨fun _ refused ↦ refused, fun _ ran ↦ (nomatch ran)⟩
  | @ran r' r h =>
      refine ⟨fun _ refused ↦ (nomatch refused), ?_⟩
      rintro _ ⟨rfl⟩
      exact ⟨r', rfl, h.trace, h.same⟩

/-- On doubles, bisection for a quarter stops at a half if a value of one is close enough to zero,
and goes on from there to the quarter otherwise. -/
theorem run_under_stricter_quarter :
    ∃ r r', (quarter.under ⟨1, 5⟩).run = .ok r ∧ (quarter.under ⟨0.125, 9⟩).run = .ok r' ∧
      r.trace = [0, 0.5] ∧ r'.trace = [0, 0.5, 0.25] ∧ r.trace <+: r'.trace := by
  have coarse : (quarter.under ⟨1, 5⟩).run = .ok ⟨0.5, 1, 0.5, 1, [0, 0.5], .converged⟩ := by
    decide +kernel
  have fine : (quarter.under ⟨0.125, 9⟩).run =
      .ok ⟨0.25, 0, 0.25, 2, [0, 0.5, 0.25], .converged⟩ := by decide +kernel
  obtain ⟨-, goesOn⟩ := run_under_stricter (fun _ _ _ ↦ Double.le_trans) (quarter.under ⟨1, 5⟩)
    ⟨0.125, 9⟩ ⟨by decide +kernel, by decide, by decide⟩ ⟨by decide +kernel, by decide, by decide⟩
    (by decide +kernel) (by decide)
  obtain ⟨r', ran, grown, -⟩ := goesOn _ coarse
  obtain rfl := Except.ok.inj (fine.symm.trans ran)
  exact ⟨_, _, coarse, fine, rfl, rfl, grown⟩

end Search

end ScalarSolve
