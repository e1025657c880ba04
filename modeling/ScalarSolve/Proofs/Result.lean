import Mathlib.Data.List.Basic
import Mathlib.Data.Option.Basic

/-!
# Results of steps

A result of several steps is there if all of them have one.  Where it matters why there is none, a
result is written as a reason for refusing it, if there is one, and what it is otherwise.
-/

namespace ScalarSolve

variable {ε ε' α β : Type}

/-! ## Steps -/

@[simp] theorem mapError_ok (name : ε → ε') (a : α) :
    (.ok a : Except ε α).mapError name = .ok a := rfl

@[simp] theorem mapError_error (name : ε → ε') (e : ε) :
    (.error e : Except ε α).mapError name = .error (name e) := rfl

/-- What an error is called does not matter to a result. -/
theorem mapError_eq_ok {name : ε → ε'} {r : Except ε α} {a : α} :
    r.mapError name = .ok a ↔ r = .ok a := by
  cases r <;> simp

/-- A result of two steps comes from a result of the first. -/
theorem bind_eq_ok {first : Except ε α} {next : α → Except ε β} {b : β} :
    first >>= next = .ok b ↔ ∃ a, first = .ok a ∧ next a = .ok b := by
  cases first with
  | error e => simp [bind, Except.bind]
  | ok a => simp [bind, Except.bind]

theorem check_bind_eq_ok {check : Except ε Unit} {answer : Except ε α} {a : α} :
    (do check; answer) = .ok a ↔ check = .ok () ∧ answer = .ok a := by
  cases check <;> simp [bind, Except.bind]

/-- A list of results is a result if all of them are. -/
theorem mapM_eq_ok {f : α → Except ε β} {as : List α} {bs : List β} :
    as.mapM f = .ok bs ↔
      (∀ a ∈ as, ∃ b, f a = .ok b) ∧ bs = as.filterMap fun a ↦ (f a).toOption := by
  induction as generalizing bs with
  | nil => simp [pure, Except.pure, eq_comm]
  | cons a as ih =>
      rw [List.mapM_cons, List.forall_mem_cons]
      cases h : f a with
      | error e => simp [bind, Except.bind]
      | ok b =>
          rw [List.filterMap_cons_some (by rw [h]; rfl)]
          cases rest : as.mapM f with
          | error e =>
              have none : ¬ ∀ a ∈ as, ∃ b, f a = .ok b := fun all ↦ by
                cases rest.symm.trans (ih.mpr ⟨all, rfl⟩)
              simp [bind, Except.bind, none]
          | ok bs' =>
              obtain ⟨all, rfl⟩ := ih.mp rest
              simp only [bind, Except.bind, pure, Except.pure, Except.ok.injEq, exists_eq',
                true_and]
              exact ⟨fun eq ↦ ⟨all, eq.symm⟩, fun eq ↦ eq.2.symm⟩

/-! ## Refusals -/

/-- Why there is no result. -/
def refusal? : Except ε α → Option ε
  | .ok _ => none
  | .error e => some e

theorem refusal?_eq_none {r : Except ε α} : refusal? r = none ↔ ∃ a, r = .ok a := by
  cases r <;> simp [refusal?]

/-- A result, unless there is a reason for refusing it. -/
def unlessRefused (reason? : Option ε) (a : α) : Except ε α := reason?.elim (.ok a) .error

variable {reason? reason'? : Option ε} {a a' : α}

theorem unlessRefused_eq_ok : unlessRefused reason? a = .ok a' ↔ reason? = none ∧ a' = a := by
  cases reason? <;> simp [unlessRefused, eq_comm]

theorem unlessRefused_eq_error {e : ε} : unlessRefused reason? a = .error e ↔ reason? = some e := by
  cases reason? <;> simp [unlessRefused]

/-- What is refused at the first of two steps does not get to the second. -/
theorem unlessRefused_bind {next : α → Except ε β} {b : β} (h : next a = unlessRefused reason'? b) :
    unlessRefused reason? a >>= next = unlessRefused (reason?.or reason'?) b := by
  cases reason? with
  | none => exact h
  | some e => rfl

end ScalarSolve
