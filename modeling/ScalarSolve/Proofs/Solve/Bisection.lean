import ScalarSolve.Proofs.Solve.Validation

/-!
# How bisection ends

Between two ends with values, of which one is zero or which have different signs, bisection has one
way to break down: it comes to a midpoint at which the function is undefined.
-/

namespace ScalarSolve

open Formula

variable {F : Type} [Arith F] {l : Limits F} {f : PartialMap F}

namespace Enclosure

/-- The enclosures that come of one when it is halved again and again, as long as the function has a
value at the midpoint. -/
inductive Halves (f : PartialMap F) : Enclosure F → Enclosure F → Prop where
  | refl (e : Enclosure F) : Halves f e e
  | step {e e' : Enclosure F} {y : F} : f e.mid = .ok y → Halves f (e.narrow y) e' → Halves f e e'

/-- A midpoint without a value ends the halving. -/
def Stuck (f : PartialMap F) (e : Enclosure F) (why : Breakdown F) : Prop :=
  ∃ e' err, Halves f e e' ∧ f e'.mid = .error err ∧ why = .undefined err

theorem Stuck.step {e : Enclosure F} {y : F} {why : Breakdown F} (value : f e.mid = .ok y)
    (h : Stuck f (e.narrow y) why) : Stuck f e why := by
  obtain ⟨e', err, halves, undefined, rfl⟩ := h
  exact ⟨e', err, .step value halves, undefined, rfl⟩

end Enclosure

namespace Bisection

/-- The search in an enclosure breaks down at midpoints only. -/
theorem stuck_of_iterate {why : Breakdown F} {left : Nat} {e : Enclosure F} {xs : Iterates F}
    (h : (iterate l f left e xs).termination = .diverged why) : e.Stuck f why := by
  induction left generalizing e xs with
  | zero => cases h
  | succ left ih =>
      unfold iterate at h
      cases value : f e.mid with
      | error err =>
          rw [value] at h
          cases h
          exact ⟨e, err, .refl e, value, rfl⟩
      | ok y =>
          rw [value] at h
          dsimp only at h
          split at h
          · cases h
          · exact .step value (ih h)

/-- A zero at one of two ends with values is found at once. -/
theorem outcome_of_isZero {a b ya yb : F} (valueA : f a = .ok ya) (valueB : f b = .ok yb)
    (zero : Arith.isZero ya ∨ Arith.isZero yb) :
    (outcome l f a b).termination = .converged ∧ Arith.isZero (outcome l f a b).residual ∧
      (outcome l f a b).iterations ≤ 1 := by
  unfold outcome fromEnds
  rw [valueA, valueB]
  dsimp only
  split
  · next zeroA => exact ⟨rfl, zeroA, Nat.zero_le 1⟩
  · next nonzeroA =>
      have zeroB := zero.resolve_left nonzeroA
      rw [if_pos zeroB]
      exact ⟨rfl, zeroB, Nat.le_refl 1⟩

/-- Between values of different signs the search goes into the enclosure. -/
theorem outcome_of_signs {a b ya yb : F} (valueA : f a = .ok ya) (valueB : f b = .ok yb)
    (nonzeroA : Arith.isZero ya = false) (nonzeroB : Arith.isZero yb = false)
    (signs : Arith.eq (Arith.signum ya) (Arith.signum yb) = false) :
    outcome l f a b = iterate l f l.maxIterations (.between a b ya yb) (.start a) := by
  simp [outcome, fromEnds, valueA, valueB, nonzeroA, nonzeroB, signs]

end Bisection

end ScalarSolve
