import ScalarSolve.Proofs.Solve.Bookkeeping

/-!
# Traces, step by step

A search that goes from each point to the next by one rule *follows* that rule: all steps of its
trace are steps of the rule, and no step but the last is within the tolerance.  A log follows a rule
if none of its steps is within the tolerance, so a loop that goes on has a log that does, whichever
rule it is and however the search ends.  What is left to be said of a run is its residual: it
*reports* a function if that is the value at its root.
-/

namespace ScalarSolve

open Formula

variable {F : Type} [Arith F]

/-! ## Points by number -/

namespace Iterates

variable {xs : Iterates F}

omit [Arith F] in
theorem getElem?_last (xs : Iterates F) : xs.trace[xs.count]? = some xs.last := by
  simp [trace, count]

omit [Arith F] in
theorem lt_of_getElem? {i : Nat} {t : F} (h : xs.trace[i]? = some t) : i < xs.count + 1 := by
  rw [← length_trace]
  exact (List.getElem?_eq_some_iff.mp h).choose

/-- A point of a trace with one more point is that one or was there before. -/
theorem getElem?_accept (xs : Iterates F) (z : F) (i : Nat) :
    (xs.accept z).trace[i]? = if i = xs.count + 1 then some z else xs.trace[i]? := by
  rw [trace_accept, ← length_trace]
  split
  · next last => rw [last, List.getElem?_concat_length]
  · next other =>
      rcases Nat.lt_or_gt_of_ne other with before | behind
      · exact List.getElem?_append_left before
      · rw [List.getElem?_eq_none behind.le, List.getElem?_eq_none]
        rwa [List.length_append, List.length_singleton]

theorem getElem?_accept_of_le {z : F} {i : Nat} (h : i ≤ xs.count) :
    (xs.accept z).trace[i]? = xs.trace[i]? := by
  rw [getElem?_accept, if_neg (by omega)]

theorem getElem?_accept_eq_some {z t : F} {i : Nat} (h : (xs.accept z).trace[i]? = some t) :
    i ≤ xs.count ∧ xs.trace[i]? = some t ∨ i = xs.count + 1 ∧ z = t := by
  rw [getElem?_accept] at h
  split at h
  · next last => exact .inr ⟨last, Option.some.inj h⟩
  · exact .inl ⟨Nat.le_of_lt_succ (lt_of_getElem? h), h⟩

/-! ## Rules -/

/-- Every step so far is one of the rule, and none is within the tolerance. -/
structure Follows (l : Limits F) (Step : F → F → Prop) (xs : Iterates F) : Prop where
  steps : ∀ i t t', xs.trace[i]? = some t → xs.trace[i + 1]? = some t' → Step t t'
  long : ∀ i t t', xs.trace[i]? = some t → xs.trace[i + 1]? = some t' →
    ¬ l.reached (Arith.abs (t' - t))

variable {l : Limits F} {Step : F → F → Prop}

theorem follows_start (x : F) : (start x).Follows l Step where
  steps := fun _ _ _ _ none ↦ by simp at none
  long := fun _ _ _ _ none ↦ by simp at none

/-- What holds of all steps so far, and of the next one. -/
theorem forall_steps_accept {P : F → F → Prop} {z : F} (last : P xs.last z)
    (before : ∀ i t t', xs.trace[i]? = some t → xs.trace[i + 1]? = some t' → P t t') :
    ∀ i t t', (xs.accept z).trace[i]? = some t → (xs.accept z).trace[i + 1]? = some t' →
      P t t' := by
  intro i t t' here next
  rcases getElem?_accept_eq_some next with ⟨le, next⟩ | ⟨now, rfl⟩
  · rw [getElem?_accept_of_le (by omega)] at here
    exact before i t t' here next
  · obtain rfl : i = xs.count := Nat.succ.inj now
    rw [getElem?_accept_of_le le_rfl] at here
    obtain rfl : xs.last = t := Option.some.inj ((getElem?_last xs).symm.trans here)
    exact last

theorem Follows.accept (h : xs.Follows l Step) {z : F} (step : Step xs.last z)
    (long : ¬ l.reached (xs.accept z).delta) : (xs.accept z).Follows l Step where
  steps := forall_steps_accept step h.steps
  long := forall_steps_accept long h.long

end Iterates

/-! ## Runs -/

namespace Run

/-- The trace of a run goes from its start to its root, and its last step has the length that the
run records. -/
structure Logged (x₀ : F) (r : Run F) : Prop where
  starts : r.trace[0]? = some x₀
  ends : r.trace[r.iterations]? = some r.root
  counted : r.trace.length = r.iterations + 1
  moved : ∀ i t, r.iterations = i + 1 → r.trace[i]? = some t → r.delta = Arith.abs (r.root - t)

/-- The trace of a run goes on by steps of a rule, and no step but the last is within the
tolerance. -/
structure Follows (l : Limits F) (Step : F → F → Prop) (x₀ : F) (r : Run F) : Prop
    extends r.Logged x₀ where
  steps : ∀ i t t', r.trace[i]? = some t → r.trace[i + 1]? = some t' → Step t t'
  long : ∀ i t t', i + 1 < r.iterations → r.trace[i]? = some t → r.trace[i + 1]? = some t' →
    ¬ l.reached (Arith.abs (t' - t))

variable {x₀ : F} {r : Run F}

/-- There is a point for every number up to that of the root. -/
theorem Logged.exists_getElem? (h : r.Logged x₀) {i : Nat} (le : i ≤ r.iterations) :
    ∃ t, r.trace[i]? = some t := by
  have lt : i < r.trace.length := by
    rw [h.counted]
    omega
  exact ⟨_, List.getElem?_eq_getElem lt⟩

/-- A trace tells how many steps were made, where they ended, and how long the last one was. -/
theorem Logged.eq_of_trace_eq {x₀' : F} {r' : Run F} (h : r.Logged x₀) (h' : r'.Logged x₀')
    (same : r.trace = r'.trace) :
    r.iterations = r'.iterations ∧ r.root = r'.root ∧ (0 < r.iterations → r.delta = r'.delta) := by
  have iterations : r.iterations = r'.iterations := by
    have counted := h.counted
    rw [same, h'.counted] at counted
    omega
  have root : r.root = r'.root := by
    have ends := h.ends
    rw [same, iterations, h'.ends] at ends
    exact (Option.some.inj ends).symm
  refine ⟨iterations, root, fun moves ↦ ?_⟩
  obtain ⟨i, last⟩ : ∃ i, r.iterations = i + 1 := Nat.exists_eq_succ_of_ne_zero moves.ne'
  obtain ⟨t, here⟩ := h.exists_getElem? (i := i) (by omega)
  rw [h.moved i t last here, h'.moved i t (iterations ▸ last) (same ▸ here), root]

end Run

namespace Iterates

variable {l : Limits F} {Step : F → F → Prop} {x₀ : F} {left : Nat} {xs : Iterates F}
  {how : Termination F} {residual : F}

/-- While iterations are left, the limit has not been reached. -/
theorem Underway.count_lt (h : Underway l x₀ (left + 1) xs) : xs.count < l.maxIterations := by
  have := h.budget
  omega

theorem Underway.getElem?_zero (h : Underway l x₀ left xs) : xs.trace[0]? = some x₀ := by
  rw [← List.head?_eq_getElem?]
  exact h.starts

theorem Underway.delta_eq (h : Underway l x₀ left xs) {i : Nat} {t : F} (last : xs.count = i + 1)
    (here : xs.trace[i]? = some t) : xs.delta = Arith.abs (xs.last - t) := by
  cases earlier : xs.earlier with
  | nil => simp [count, earlier] at last
  | cons x before =>
      obtain rfl : i = before.length := by simpa [count, earlier] using last.symm
      obtain rfl : x = t := by simpa [trace, earlier] using here
      exact h.moved x before earlier

theorem Underway.logged (h : Underway l x₀ left xs) : (xs.finish how residual).Logged x₀ where
  starts := h.getElem?_zero
  ends := getElem?_last xs
  counted := xs.length_trace
  moved := fun _ _ ↦ h.delta_eq

theorem Follows.finish (h : xs.Follows l Step) (underway : Underway l x₀ left xs) :
    (xs.finish how residual).Follows l Step x₀ where
  toLogged := underway.logged
  steps := h.steps
  long := fun i t t' _ ↦ h.long i t t'

/-- The last step may be within the tolerance. -/
theorem Follows.finish_accept (h : xs.Follows l Step) {z : F}
    (underway : Underway l x₀ left (xs.accept z)) (step : Step xs.last z) :
    ((xs.accept z).finish how residual).Follows l Step x₀ where
  toLogged := underway.logged
  steps := forall_steps_accept step h.steps
  long := by
    intro i t t' before here next
    change i + 1 < xs.count + 1 at before
    change (xs.accept z).trace[i]? = some t at here
    change (xs.accept z).trace[i + 1]? = some t' at next
    rw [getElem?_accept_of_le (by omega)] at here next
    exact h.long i t t' here next

/-- The last step of a log is not within the tolerance either. -/
theorem Follows.not_reached_delta (h : xs.Follows l Step) (underway : Underway l x₀ left xs)
    (moves : 0 < xs.count) : ¬ l.reached xs.delta := by
  obtain ⟨i, last⟩ : ∃ i, xs.count = i + 1 := Nat.exists_eq_succ_of_ne_zero moves.ne'
  have lt : i < xs.trace.length := by
    rw [length_trace]
    omega
  have here : xs.trace[i]? = some xs.trace[i] := List.getElem?_eq_getElem lt
  have next : xs.trace[i + 1]? = some xs.last := last ▸ getElem?_last xs
  rw [underway.delta_eq last here]
  exact h.long i _ _ here next

end Iterates

/-! ## Residuals -/

/-- A run tells the value of the function at its root, if there is one. -/
structure Run.Reports (f : PartialMap F) (r : Run F) : Prop where
  value : ∀ y, f r.root = .ok y → r.residual = y
  undefined : ∀ e, f r.root = .error e → r.residual = Arith.nan

namespace Iterates

variable {f : PartialMap F} {xs : Iterates F} {how : Termination F} {y : F}

theorem reports_finish (value : f xs.last = .ok y) : (xs.finish how y).Reports f where
  value _ value' := Except.ok.inj (value.symm.trans value')
  undefined _ undefined := nomatch value.symm.trans undefined

theorem reports_finish_nan {e : EvalError F} (undefined : f xs.last = .error e) :
    (xs.finish how Arith.nan).Reports f where
  value _ value := nomatch undefined.symm.trans value
  undefined _ _ := rfl

theorem reports_exhausted (f : PartialMap F) (limit : Nat) :
    (xs.exhausted limit (f xs.last)).Reports f := by
  cases last : f xs.last with
  | ok y => exact reports_finish last
  | error e => exact reports_finish_nan last

end Iterates

end ScalarSolve
