import ScalarSolve.Proofs.Arith.Sign
import ScalarSolve.Proofs.Expression.Curve
import ScalarSolve.Proofs.Solve.Bisection
import ScalarSolve.Region.Bracket

/-!
# Brackets and bisection

What a scan reports is fit for bisection.  The two look for a sign change in different ways, the
scan by comparison with zero and bisection by signs, and they check their points in different ways
too; but the ends of a bracket are points with values, such points are finite, and the values at
them are zero or have different signs by either test.
-/

namespace ScalarSolve

open Formula

variable {F : Type} [Arith F]

/-! ## Scans -/

/-- A bracket has the values of the function at its ends, and they cross zero. -/
structure Bracket.Encloses (f : PartialMap F) (i : Bracket F) : Prop where
  left : f i.a = .ok i.fa
  right : f i.b = .ok i.fb
  crosses : crosses i.fa i.fb

namespace Scan

/-- What a scan holds so far is about the function. -/
structure Sound (f : PartialMap F) (state : Scan F × Option (Sample F)) : Prop where
  brackets : ∀ i ∈ state.1.brackets, i.Encloses f
  previous : ∀ p, state.2 = some p → f p.x = .ok p.y

variable {f : PartialMap F} {state : Scan F × Option (Sample F)}

theorem sound_empty : Sound f (empty, none) where
  brackets i mem := by simp [empty] at mem
  previous p h := nomatch h

theorem encloses_of_between? {p q : Sample F} {i : Bracket F} (left : f p.x = .ok p.y)
    (right : f q.x = .ok q.y) (h : Bracket.between? p q = some i) : i.Encloses f := by
  unfold Bracket.between? at h
  split at h
  · next crosses =>
      cases h
      exact ⟨left, right, crosses⟩
  · cases h

/-- One more point, which may make a bracket with the point before it. -/
theorem Sound.step (h : Sound f state) (x : F) : Sound f (step f state x) := by
  obtain ⟨s, previous⟩ := state
  unfold Scan.step
  cases value : f x with
  | error e => exact ⟨h.brackets, fun p none ↦ nomatch none⟩
  | ok y =>
      refine ⟨?_, ?_⟩
      · dsimp only
        split
        · next b found =>
            obtain ⟨p, known, between⟩ := Option.bind_eq_some_iff.mp found
            intro i mem
            rcases Array.mem_push.mp mem with old | rfl
            · exact h.brackets i old
            · exact encloses_of_between? (h.previous p known) value between
        · exact h.brackets
      · rintro p ⟨rfl⟩
        exact value

theorem Sound.foldl (h : Sound f state) (xs : List F) : Sound f (xs.foldl (Scan.step f) state) := by
  induction xs generalizing state with
  | nil => exact h
  | cons x xs ih => exact ih (h.step x)

theorem encloses_of_bracket {f : Curve F} {a b : F} {steps : Nat} {s : Scan F}
    (scanned : bracket f a b steps = .ok s) {i : Bracket F} (mem : i ∈ s.brackets) :
    i.Encloses f.eval := by
  unfold bracket at scanned
  split at scanned
  · cases scanned
  · split at scanned
    · cases scanned
    · split at scanned
      · cases scanned
      · cases scanned
        exact (sound_empty.foldl _).brackets i mem

end Scan

/-! ## Bisection -/

namespace Bracket

/-- The same bracket from its other end. -/
def flip (i : Bracket F) : Bracket F := ⟨i.b, i.a, i.fb, i.fa⟩

theorem Encloses.flip {f : PartialMap F} {i : Bracket F} (h : i.Encloses f) :
    i.flip.Encloses f where
  left := h.right
  right := h.left
  crosses := by
    have crosses := h.crosses
    simp only [Bracket.crosses, Bracket.flip, Bool.or_eq_true, bne_iff_ne] at crosses ⊢
    tauto

/-- Doubles that cross zero have different signs, zeros apart. -/
theorem Encloses.signs {f : PartialMap Float} {i : Bracket Float} (h : i.Encloses f)
    (nonzeroA : Arith.isZero i.fa = false) (nonzeroB : Arith.isZero i.fb = false) :
    Arith.eq (Arith.signum i.fa) (Arith.signum i.fb) = false := by
  refine Double.signum_ne_signum nonzeroA nonzeroB ?_
  have crosses := h.crosses
  simpa [Bracket.crosses, nonzeroA, nonzeroB] using crosses

/-- Bisection of a bracket that encloses. -/
theorem Encloses.solve {f : Curve Float} {i : Bracket Float} (h : i.Encloses f.eval)
    {l : Limits Float} (valid : l.Valid) :
    ∃ r, Bisection.solve l f i.a i.b = .ok r ∧
      (∀ why, r.termination = .diverged why →
        (Enclosure.between i.a i.b i.fa i.fb).Stuck f.eval why) ∧
      (Arith.isZero i.fa ∨ Arith.isZero i.fb →
        r.termination = .converged ∧ Arith.isZero r.residual ∧ r.iterations ≤ 1) := by
  have finiteA := Curve.isFinite_of_eval h.left
  have finiteB := Curve.isFinite_of_eval h.right
  refine ⟨_, Bisection.findRoot_eq_ok.mpr ⟨valid, finiteA, finiteB, rfl⟩, ?_,
    Bisection.outcome_of_isZero h.left h.right⟩
  intro why diverged
  by_cases zero : Arith.isZero i.fa ∨ Arith.isZero i.fb
  · have converged := (Bisection.outcome_of_isZero (l := l) h.left h.right zero).1
    cases converged.symm.trans diverged
  · rw [not_or, Bool.not_eq_true, Bool.not_eq_true] at zero
    rw [Bisection.outcome_of_signs h.left h.right zero.1 zero.2 (h.signs zero.1 zero.2)] at diverged
    exact Bisection.stuck_of_iterate diverged

theorem not_stuck_noSignChange {f : PartialMap F} {e : Enclosure F} {lo hi : F} :
    ¬ e.Stuck f (.noSignChange lo hi) := by
  rintro ⟨_, _, _, _, same⟩
  cases same

/-- Whatever a scan reports can be handed to bisection, from either end and under any valid limits:
there is a run, it never finds that there is no sign change, and it breaks down at a midpoint
without a value or not at all.  Where one of the reported values is zero it converges to a residual
of zero in at most one iteration. -/
theorem solve_of_bracket {f : Curve Float} {a b : Float} {steps : Nat} {s : Scan Float}
    (scanned : Scan.bracket f a b steps = .ok s) {i : Bracket Float} (mem : i ∈ s.brackets)
    {l : Limits Float} (valid : l.Valid) :
    ∀ j, j = i ∨ j = i.flip → ∃ r, Bisection.solve l f j.a j.b = .ok r ∧
      (∀ lo hi, r.termination ≠ .diverged (.noSignChange lo hi)) ∧
      (∀ why, r.termination = .diverged why → ∃ e err,
        (Enclosure.between j.a j.b j.fa j.fb).Halves f.eval e ∧ f.eval e.mid = .error err ∧
          why = .undefined err) ∧
      (Arith.isZero i.fa ∨ Arith.isZero i.fb →
        r.termination = .converged ∧ Arith.isZero r.residual ∧ r.iterations ≤ 1) := by
  have encloses := Scan.encloses_of_bracket scanned mem
  rintro j (rfl | rfl)
  · obtain ⟨r, ran, stuck, found⟩ := encloses.solve valid
    exact ⟨r, ran, fun lo hi diverged ↦ not_stuck_noSignChange (stuck _ diverged), stuck, found⟩
  · obtain ⟨r, ran, stuck, found⟩ := encloses.flip.solve valid
    exact ⟨r, ran, fun lo hi diverged ↦ not_stuck_noSignChange (stuck _ diverged), stuck,
      fun zero ↦ found zero.symm⟩

open Curve (reciprocal)

/-- The pole of the reciprocal passes for a sign change, and bisection breaks down right there. -/
theorem solve_of_bracket_pole :
    Scan.bracket reciprocal (-1) 1 1 =
        .ok ⟨#[⟨-1, 1, -1, 1⟩], #[⟨-1, -1⟩, ⟨1, 1⟩], 0⟩ ∧
      Limits.Valid (⟨0.125, 9⟩ : Limits Float) ∧
      ∃ r, Bisection.solve ⟨0.125, 9⟩ reciprocal 1 (-1) = .ok r ∧
        r.termination = .diverged (.undefined (.divisionByZero 0)) ∧
        ∀ lo hi, r.termination ≠ .diverged (.noSignChange lo hi) := by
  have scanned : Scan.bracket reciprocal (-1) 1 1 =
      .ok ⟨#[⟨-1, 1, -1, 1⟩], #[⟨-1, -1⟩, ⟨1, 1⟩], 0⟩ := by decide +kernel
  have valid : Limits.Valid (⟨0.125, 9⟩ : Limits Float) :=
    ⟨by decide +kernel, by decide, by decide⟩
  have ran : Bisection.solve ⟨0.125, 9⟩ reciprocal 1 (-1) =
      .ok ⟨1, Arith.nan, 0, 0, [1], .diverged (.undefined (.divisionByZero 0))⟩ := by
    decide +kernel
  obtain ⟨r, ran', signs, -⟩ :=
    solve_of_bracket scanned (Array.mem_singleton.mpr rfl) valid (flip _) (.inr rfl)
  obtain rfl := Except.ok.inj (ran.symm.trans ran')
  exact ⟨scanned, valid, _, ran, rfl, signs⟩

end Bracket

end ScalarSolve
