import ScalarSolve.Proofs.Region.Bracket
import ScalarSolve.Proofs.Region.Range

/-!
# The order of samples

The samples of a scan never descend, and no bracket has its ends the wrong way round.  They need not
be different, though: where the parts of a grid are narrower than the spacing of doubles, neighbours
may be rounded to the same double, and if there are more points than doubles some of them are.  A
part that is twice as long as the spacing at the end of greater magnitude is enough to tell all
samples apart.
-/

namespace ScalarSolve

open Double Formula

namespace Grid

variable {lo hi : Float} {steps i j : ℕ}

namespace Admitted

variable (h : Admitted lo hi steps)

include h

/-- Points with different numbers are different doubles if the parts of the grid are wide. -/
theorem point_lt_point (wide : 2 * 2 ^ lastPlace (max |value lo| |value hi|) * steps ≤
      value hi - value lo) (lt : i < j) (le : j ≤ steps)
    (finiteI : Arith.isFinite (point lo hi steps i))
    (finiteJ : Arith.isFinite (point lo hi steps j)) :
    Arith.lt (point lo hi steps i) (point lo hi steps j) := by
  rw [lt_iff_value finiteI finiteJ, h.value_point (lt.le.trans le) finiteI,
    h.value_point le finiteJ]
  exact h.frame.round_add_offset_lt wide lt le

/-- Different points need room: with a unit that divides all doubles of the interval, each of them
is at least one unit above the one before it. -/
theorem unit_mul_steps_le {u : ℚ} (positive : 0 < u)
    (divides : ∀ x, Arith.isFinite x → Arith.le lo x → Arith.le x hi → ∃ n : ℤ, value x = n * u)
    (finite : ∀ i ≤ steps, Arith.isFinite (point lo hi steps i))
    (strict : ∀ i < steps, Arith.lt (point lo hi steps i) (point lo hi steps (i + 1))) :
    u * steps ≤ value hi - value lo := by
  have inside (i : ℕ) (le : i ≤ steps) := h.inside_point le (finite i le)
  have room (i : ℕ) (le : i ≤ steps) : value lo + u * i ≤ value (point lo hi steps i) := by
    induction i with
    | zero =>
        rw [Nat.cast_zero, mul_zero, add_zero]
        exact (le_iff_value h.finiteLo (finite 0 le)).mp (inside 0 le).1
    | succ i ih =>
        have less := (lt_iff_value (finite i (by omega)) (finite (i + 1) le)).mp (strict i le)
        obtain ⟨n, low⟩ := divides _ (finite i (by omega)) (inside i (by omega)).1
          (inside i (by omega)).2
        obtain ⟨m, high⟩ := divides _ (finite (i + 1) le) (inside (i + 1) le).1
          (inside (i + 1) le).2
        rw [low, high, mul_lt_mul_iff_left₀ positive, Int.cast_lt] at less
        have apart : (n : ℚ) + 1 ≤ m := by exact_mod_cast less
        have scaled := mul_le_mul_of_nonneg_right apart positive.le
        have before := ih (by omega)
        rw [high, Nat.cast_succ]
        linarith
  have last := room steps le_rfl
  rw [point_last] at last
  linarith

end Admitted

end Grid

namespace Scan

variable {lo hi : Float} {steps : ℕ}

/-- There is one sample at most at each point. -/
theorem at_unique {F : Type} [Arith F] {f : PartialMap F} {point : ℕ → F} {n : ℕ} (i : ℕ)
    (p q : Sample F) (hp : i < n ∧ p.At f point i) (hq : i < n ∧ q.At f point i) : p = q :=
  ((p.at_iff hp.2.value).mp hp.2).trans ((q.at_iff hp.2.value).mp hq.2).symm

/-- Samples are at points of the grid that are finite, and so are the ends of brackets. -/
theorem Covers.pairwise {f : Curve Float} {state : Scan Float × Option (Sample Float)}
    {R : Float → Float → Prop} (h : Covers f.eval (Grid.point lo hi steps) (steps + 1) state)
    (related : ∀ i j, i < j → j ≤ steps → Arith.isFinite (Grid.point lo hi steps i) →
      Arith.isFinite (Grid.point lo hi steps j) →
        R (Grid.point lo hi steps i) (Grid.point lo hi steps j)) :
    state.1.samples.toList.Pairwise (fun p q ↦ R p.x q.x) ∧
      ∀ b ∈ state.1.brackets, R b.a b.b := by
  constructor
  · refine h.samples.pairwise fun i j p q lt ⟨_, hp⟩ ⟨le, hq⟩ ↦ ?_
    rw [hp.point_eq, hq.point_eq]
    exact related i j lt (Nat.lt_succ_iff.mp le) (Curve.isFinite_of_eval hp.value)
      (Curve.isFinite_of_eval hq.value)
  · intro b mem
    obtain ⟨i, lt, hb⟩ := h.brackets.exists_of_mem (Array.mem_toList_iff.mpr mem)
    rw [hb.left, hb.right]
    exact related i (i + 1) (Nat.lt_succ_self i) (Nat.lt_succ_iff.mp lt)
      (Curve.isFinite_of_eval hb.valueLeft) (Curve.isFinite_of_eval hb.valueRight)

/-- Without a gap there is a value at every point. -/
theorem Covers.exists_value {F : Type} [Arith F] {f : PartialMap F} {point : ℕ → F} {n : ℕ}
    {state : Scan F × Option (Sample F)} (h : Covers f point n state) (whole : state.1.gaps = 0)
    {i : ℕ} (lt : i < n) : ∃ y, f (point i) = .ok y := by
  cases value : f (point i) with
  | error e => exact absurd whole (h.gaps_pos lt value).ne'
  | ok y => exact ⟨y, rfl⟩

/-- On finite doubles in ascending order, the samples of a scan never descend, and no bracket has
its ends the wrong way round.  If the parts of the grid are at least two units wide in the last
place of the end of greater magnitude, all samples are different and so are the ends of each
bracket.  This is as much as can be: without a gap, samples are only different if the interval has
room for one unit between any two of them, with any unit that divides all of its doubles. -/
theorem ascends_if_wide (finiteLo : Arith.isFinite lo) (finiteHi : Arith.isFinite hi)
    (ascending : Arith.lt lo hi) (any : 1 ≤ steps) (few : steps ≤ 100000) (f : Curve Float) :
    ∃ s, bracket f lo hi steps = .ok s ∧
      s.samples.toList.Pairwise (fun p q ↦ Arith.le p.x q.x) ∧
      (∀ b ∈ s.brackets, Arith.le b.a b.b) ∧
      (2 * 2 ^ lastPlace (max |value lo| |value hi|) * steps ≤ value hi - value lo →
        s.samples.toList.Pairwise (fun p q ↦ Arith.lt p.x q.x) ∧
          ∀ b ∈ s.brackets, Arith.lt b.a b.b) ∧
      ∀ u : ℚ, 0 < u →
        (∀ x, Arith.isFinite x → Arith.le lo x → Arith.le x hi → ∃ n : ℤ, value x = n * u) →
        s.gaps = 0 → s.samples.toList.Pairwise (fun p q ↦ Arith.lt p.x q.x) →
          u * steps ≤ value hi - value lo := by
  have admitted : Grid.Admitted lo hi steps := ⟨finiteLo, finiteHi, ascending, any, few⟩
  have covers := covers_foldl f.eval (Grid.point lo hi steps) (steps + 1)
  obtain ⟨samples, brackets⟩ := covers.pairwise (R := fun x y ↦ Arith.le x y)
    fun i j lt le ↦ admitted.point_le_point lt.le le
  refine ⟨_, bracket_eq_ok finiteLo finiteHi (not_le_of_lt ascending) any few, samples, brackets,
    fun wide ↦ covers.pairwise (R := fun x y ↦ Arith.lt x y)
      fun i j lt le ↦ admitted.point_lt_point wide lt le, ?_⟩
  intro u positive divides whole strict
  have valued (i : ℕ) (le : i ≤ steps) := covers.exists_value whole (Nat.lt_succ_of_le le)
  refine admitted.unit_mul_steps_le positive divides (fun i le ↦ ?_) fun i lt ↦ ?_
  · obtain ⟨y, value⟩ := valued i le
    exact Curve.isFinite_of_eval value
  · obtain ⟨y, value⟩ := valued i lt.le
    obtain ⟨y', value'⟩ := valued (i + 1) lt
    have here : Sample.At f.eval (Grid.point lo hi steps) i ⟨_, y⟩ := ⟨rfl, value⟩
    have next : Sample.At f.eval (Grid.point lo hi steps) (i + 1) ⟨_, y'⟩ := ⟨rfl, value'⟩
    exact covers.samples.related (R := fun p q ↦ Arith.lt p.x q.x) at_unique strict
      (Nat.lt_succ_self i) ⟨Nat.lt_succ_of_lt lt, here⟩ ⟨Nat.succ_lt_succ lt, next⟩

open Curve (identity)

/-- A scan between minus one and two, with parts far longer than the spacing of doubles. -/
theorem ascends_if_wide_identity :
    Arith.isFinite (-1 : Float) ∧ Arith.isFinite (2 : Float) ∧ Arith.lt (-1 : Float) 2 ∧
      2 * 2 ^ lastPlace (max |value (-1)| |value 2|) * (4 : ℕ) ≤ value 2 - value (-1) ∧
      ∃ s, bracket identity (-1) 2 4 = .ok s ∧ s.brackets = #[⟨-0.25, 0.5, -0.25, 0.5⟩] ∧
        (s.samples.toList.map fun p ↦ p.x) = [-1, -0.25, 0.5, 1.25, 2] ∧ s.gaps = 0 ∧
        s.samples.toList.Pairwise (fun p q ↦ Arith.lt p.x q.x) ∧
        ∀ b ∈ s.brackets, Arith.lt b.a b.b := by
  have finiteLo : Arith.isFinite (-1 : Float) := by decide +kernel
  have finiteHi : Arith.isFinite (2 : Float) := by decide +kernel
  have ascending : Arith.lt (-1 : Float) 2 := by decide +kernel
  have wide : 2 * 2 ^ lastPlace (max |value (-1)| |value 2|) * (4 : ℕ) ≤ value 2 - value (-1) := by
    decide +kernel
  have scanned : bracket identity (-1) 2 4 = .ok ⟨#[⟨-0.25, 0.5, -0.25, 0.5⟩],
      #[⟨-1, -1⟩, ⟨-0.25, -0.25⟩, ⟨0.5, 0.5⟩, ⟨1.25, 1.25⟩, ⟨2, 2⟩], 0⟩ := by
    decide +kernel
  obtain ⟨s, scanned', -, -, strict, -⟩ :=
    ascends_if_wide finiteLo finiteHi ascending (by decide : 1 ≤ 4) (by decide) identity
  obtain rfl := Except.ok.inj (scanned.symm.trans scanned')
  obtain ⟨samples, brackets⟩ := strict wide
  exact ⟨finiteLo, finiteHi, ascending, wide, _, scanned, rfl, rfl, rfl, samples, brackets⟩

/-- Two parts between two neighbouring doubles: the point in the middle is rounded to the lower one,
where the function has its root, and the scan reports a bracket with the same end twice. -/
theorem bracket_empty_of_narrow :
    Expression.Draws "x-1" .line ∧ Arith.isFinite (1 : Float) ∧
      Arith.isFinite (1.0000000000000002 : Float) ∧ Arith.lt (1 : Float) 1.0000000000000002 ∧
      ∃ s, bracket .line 1 1.0000000000000002 2 = .ok s ∧
        (s.samples.toList.map fun p ↦ p.x) = [1, 1, 1.0000000000000002] ∧
        ⟨1, 1, 0, 0⟩ ∈ s.brackets ∧ (¬ ∀ b ∈ s.brackets, Arith.lt b.a b.b) ∧
        ¬ s.samples.toList.Pairwise (fun p q ↦ Arith.lt p.x q.x) := by
  have scanned : bracket .line 1 1.0000000000000002 2 =
      .ok ⟨#[⟨1, 1, 0, 0⟩, ⟨1, 1.0000000000000002, 0, 2.220446049250313e-16⟩],
        #[⟨1, 0⟩, ⟨1, 0⟩, ⟨1.0000000000000002, 2.220446049250313e-16⟩], 0⟩ := by
    decide +kernel
  refine ⟨Curve.draws_line, by decide +kernel, by decide +kernel, by decide +kernel, _, scanned,
    rfl, ?_, ?_, ?_⟩
  · decide +kernel
  · decide +kernel
  · decide +kernel

end Scan

end ScalarSolve
