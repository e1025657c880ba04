import ScalarSolve.Proofs.Region.Coverage
import ScalarSolve.Proofs.Region.Spacing
import ScalarSolve.Proofs.Region.Summary
import ScalarSolve.Proofs.Solve.Confinement

/-!
# The range of a grid

Scans and contraction checks use the points of the same kind of grid.  On doubles these points lead
through the interval from one end to the other as long as the width times the number of parts but
one does not overflow.  If it does, some point is not finite, and a scan has a gap there whatever
the function is.
-/

namespace ScalarSolve

open Double Formula

namespace Grid

/-- These points lead through an interval from one end to the other. -/
structure Spans (lo hi : Float) (xs : List Float) : Prop where
  finite : ∀ x ∈ xs, Arith.isFinite x
  inside : ∀ x ∈ xs, Arith.le lo x ∧ Arith.le x hi
  ascending : xs.Pairwise (Arith.le · ·)
  first : ∃ x ∈ xs.head?, Arith.eq x lo
  last : xs.getLast? = some hi

theorem mem_points {F : Type} [Arith F] {lo hi x : F} {steps : ℕ} :
    x ∈ points lo hi steps ↔ ∃ i ≤ steps, point lo hi steps i = x := by
  simp only [points, List.mem_map, List.mem_range, Nat.lt_succ_iff]

theorem head?_points {F : Type} [Arith F] (lo hi : F) (steps : ℕ) :
    (points lo hi steps).head? = some (point lo hi steps 0) := by
  rw [points, List.range_succ_eq_map]
  rfl

theorem getLast?_points {F : Type} [Arith F] (lo hi : F) (steps : ℕ) :
    (points lo hi steps).getLast? = some hi := by
  rw [points, List.range_succ, List.map_append, List.map_singleton, List.getLast?_concat,
    point_last]

variable {lo hi : Float} {steps i j : ℕ}

namespace Admitted

variable (h : Admitted lo hi steps)

include h

/-- If the dividend of the last point that is computed is finite, then so are all others. -/
theorem isFinite_dividend (finite : Arith.isFinite ((hi - lo) * Arith.ofNat (steps - 1)))
    (lt : i < steps) : Arith.isFinite ((hi - lo) * Arith.ofNat i) := by
  have width := isFinite_of_mul finite
  have range := (h.isRounded_dividend (Nat.sub_le _ _) width).finite_iff.mp finite
  have nonneg := round_nonneg h.frame.width_pos.le
  have count : (i : ℚ) ≤ (steps - 1 : ℕ) := Nat.cast_le.mpr (by omega)
  have product := round_mono (mul_le_mul_of_nonneg_left count nonneg)
  rw [(h.isRounded_dividend lt.le width).finite_iff,
    abs_of_nonneg (round_nonneg (mul_nonneg nonneg (Nat.cast_nonneg i)))]
  rw [abs_of_nonneg (round_nonneg (mul_nonneg nonneg (Nat.cast_nonneg _)))] at range
  exact product.trans_lt range

theorem isFinite_point (finite : Arith.isFinite ((hi - lo) * Arith.ofNat (steps - 1)))
    (le : i ≤ steps) : Arith.isFinite (point lo hi steps i) := by
  rcases le.lt_or_eq with lt | rfl
  · exact (h.isFinite_point_iff lt).mpr (h.isFinite_dividend finite lt)
  · rw [point_last]
    exact h.finiteHi

/-- A finite point is in the interval. -/
theorem inside_point (le : i ≤ steps) (finite : Arith.isFinite (point lo hi steps i)) :
    Arith.le lo (point lo hi steps i) ∧ Arith.le (point lo hi steps i) hi := by
  obtain ⟨low, high⟩ := h.frame.between le
  rw [le_iff_value h.finiteLo finite, le_iff_value finite h.finiteHi, h.value_point le finite]
  exact ⟨le_round h.frame.repLo low, round_le h.frame.repHi high⟩

/-- Finite points ascend. -/
theorem point_le_point (ascending : i ≤ j) (le : j ≤ steps)
    (finiteI : Arith.isFinite (point lo hi steps i))
    (finiteJ : Arith.isFinite (point lo hi steps j)) :
    Arith.le (point lo hi steps i) (point lo hi steps j) := by
  rw [le_iff_value finiteI finiteJ, h.value_point (ascending.trans le) finiteI,
    h.value_point le finiteJ]
  exact round_mono (add_le_add_right (h.frame.offset_mono ascending le) _)

theorem point_zero_eq (finite : Arith.isFinite (point lo hi steps 0)) :
    Arith.eq (point lo hi steps 0) lo := by
  rw [eq_iff_value finite h.finiteLo, h.value_point (Nat.zero_le _) finite,
    offset_of_lt h.any, Nat.cast_zero, mul_zero, round_zero, zero_div, round_zero, add_zero,
    round_of_representable h.frame.repLo]

/-- A grid leads through its interval unless it overflows. -/
theorem spans_iff :
    Spans lo hi (points lo hi steps) ↔
      Arith.isFinite ((hi - lo) * Arith.ofNat (steps - 1)) := by
  constructor
  · intro spans
    have last := spans.finite _ (mem_points.mpr ⟨steps - 1, Nat.sub_le _ _, rfl⟩)
    exact (h.isFinite_point_iff (Nat.sub_lt h.any Nat.one_pos)).mp last
  · intro finite
    refine ⟨fun x mem ↦ ?_, fun x mem ↦ ?_, ?_, ?_, getLast?_points lo hi steps⟩
    · obtain ⟨i, le, rfl⟩ := mem_points.mp mem
      exact h.isFinite_point finite le
    · obtain ⟨i, le, rfl⟩ := mem_points.mp mem
      exact h.inside_point le (h.isFinite_point finite le)
    · rw [points, List.pairwise_map]
      refine List.pairwise_lt_range.imp_of_mem fun memI memJ lt ↦ ?_
      have leI := Nat.lt_succ_iff.mp (List.mem_range.mp memI)
      have leJ := Nat.lt_succ_iff.mp (List.mem_range.mp memJ)
      exact h.point_le_point lt.le leJ (h.isFinite_point finite leI) (h.isFinite_point finite leJ)
    · exact ⟨_, head?_points lo hi steps, h.point_zero_eq (h.isFinite_point finite (Nat.zero_le _))⟩

end Admitted

/-! ## Scans and checks -/

theorem exists_infinite_point (h : Admitted lo hi steps)
    (overflow : ¬ Arith.isFinite ((hi - lo) * Arith.ofNat (steps - 1))) :
    ∃ i ≤ steps, ¬ Arith.isFinite (point lo hi steps i) :=
  have lt : steps - 1 < steps := Nat.sub_lt h.any Nat.one_pos
  ⟨steps - 1, lt.le, fun finite ↦ overflow ((h.isFinite_point_iff lt).mp finite)⟩

end Grid

/-- There is no slope at a point that is not finite. -/
theorem Derivative.exists_error_atDefaultStep {g : Curve Float} {x : Float}
    (infinite : ¬ Arith.isFinite x) : ∃ e, atDefaultStep g.eval x = .error e := by
  have forward : ¬ Arith.isFinite (x + defaultStep x) :=
    fun finite ↦ infinite (isFinite_of_add finite).1
  refine ⟨.nonFinite (x + defaultStep x), ?_⟩
  unfold atDefaultStep central
  rw [g.eval_of_not_isFinite _ forward]
  rfl

namespace Scan.Covers

variable {F : Type} [Arith F] {f : PartialMap F} {point : ℕ → F} {n : ℕ}
  {state : Scan F × Option (Sample F)}

theorem gaps_eq_zero (h : Covers f point n state) (defined : ∀ i < n, ∃ y, f (point i) = .ok y) :
    state.1.gaps = 0 ∧ state.1.samples.size = n := by
  have none : state.1.gaps = 0 := by
    rw [h.gaps, List.countP_eq_zero]
    intro i mem
    obtain ⟨y, value⟩ := defined i (List.mem_range.mp mem)
    rw [value]
    exact Bool.false_ne_true
  exact ⟨none, by have counted := h.counted; omega⟩

theorem gaps_pos (h : Covers f point n state) {i : ℕ} (lt : i < n) {e : EvalError F}
    (undefined : f (point i) = .error e) : 0 < state.1.gaps := by
  rw [h.gaps, List.countP_pos_iff]
  exact ⟨i, List.mem_range.mpr lt, by rw [undefined]; rfl⟩

end Scan.Covers

theorem Contraction.Summarizes.skipped_pos {g : PartialMap Float} {point : ℕ → Float} {n i : ℕ}
    {c : Contraction Float} (h : Summarizes g point n c) (lt : i < n) {e : EvalError Float}
    (undefined : Derivative.atDefaultStep g (point i) = .error e) : 0 < c.skipped := by
  rw [h.skipped, List.countP_pos_iff]
  exact ⟨i, List.mem_range.mpr lt, by rw [undefined]; rfl⟩

namespace Grid

variable {lo hi : Float}

/-- On finite doubles in ascending order, scans and checks use the points of grids that lead through
the whole interval, from one end to the other, unless the width times the number of parts but one
overflows.  Where it does not, a scan of a function with values on the whole interval has no gap;
where it does, a scan has a gap and a check skips a sample, whatever the function is. -/
theorem spans_unless_overflows (finiteLo : Arith.isFinite lo) (finiteHi : Arith.isFinite hi)
    (ascending : Arith.lt lo hi) :
    (∀ (f : Curve Float) steps, 1 ≤ steps → steps ≤ 100000 →
      ∃ s, Scan.bracket f lo hi steps = .ok s ∧
        s = Scan.along f.eval (points lo hi steps) ∧ (points lo hi steps).length = steps + 1 ∧
        (Spans lo hi (points lo hi steps) ↔
          Arith.isFinite ((hi - lo) * Arith.ofNat (steps - 1))) ∧
        (Arith.isFinite ((hi - lo) * Arith.ofNat (steps - 1)) →
          (∀ x, Arith.le lo x → Arith.le x hi → ∃ y, f.eval x = .ok y) →
            s.gaps = 0 ∧ s.samples.size = steps + 1) ∧
        (¬ Arith.isFinite ((hi - lo) * Arith.ofNat (steps - 1)) → 0 < s.gaps)) ∧
    ∀ (g : Curve Float) samples, 2 ≤ samples → samples ≤ 100000 →
      ∃ c, Contraction.check g lo hi samples = .ok c ∧
        Contraction.check g hi lo samples = .ok c ∧
        c = Contraction.along g.eval (points lo hi (samples - 1)) ∧
        (points lo hi (samples - 1)).length = samples ∧
        (Spans lo hi (points lo hi (samples - 1)) ↔
          Arith.isFinite ((hi - lo) * Arith.ofNat (samples - 2))) ∧
        (¬ Arith.isFinite ((hi - lo) * Arith.ofNat (samples - 2)) → 0 < c.skipped) := by
  refine ⟨fun f steps any few ↦ ?_, fun g samples any few ↦ ?_⟩
  · have admitted : Admitted lo hi steps := ⟨finiteLo, finiteHi, ascending, any, few⟩
    have covers := Scan.covers_foldl f.eval (point lo hi steps) (steps + 1)
    refine ⟨_, Scan.bracket_eq_ok finiteLo finiteHi (not_le_of_lt ascending) any few, rfl,
      length_points lo hi steps, admitted.spans_iff, fun finite defined ↦ ?_, fun overflow ↦ ?_⟩
    · refine covers.gaps_eq_zero fun i lt ↦ ?_
      have le := Nat.lt_succ_iff.mp lt
      obtain ⟨low, high⟩ := admitted.inside_point le (admitted.isFinite_point finite le)
      exact defined _ low high
    · obtain ⟨i, le, infinite⟩ := exists_infinite_point admitted overflow
      exact covers.gaps_pos (Nat.lt_succ_of_le le) (f.eval_of_not_isFinite _ infinite)
  · have admitted : Admitted lo hi (samples - 1) :=
      ⟨finiteLo, finiteHi, ascending, by omega, by omega⟩
    have apart : ¬ Arith.eq lo hi := fun eq ↦
      ((lt_iff_value finiteLo finiteHi).mp ascending).ne ((eq_iff_value finiteLo finiteHi).mp eq)
    have checked := Contraction.check_eq_ok finiteLo finiteHi apart any few g
    rw [min_of_lt finiteLo ascending, max_of_lt finiteLo ascending] at checked
    have summarizes := Contraction.summarizes_sample g.eval lo hi (Nat.one_le_of_lt any)
    refine ⟨_, checked, (Contraction.check_comm finiteLo finiteHi apart any few g).trans checked,
      Contraction.sample_eq g.eval lo hi (by omega), ?_, admitted.spans_iff, fun overflow ↦ ?_⟩
    · rw [length_points]
      omega
    · obtain ⟨i, le, infinite⟩ := exists_infinite_point admitted overflow
      obtain ⟨e, undefined⟩ := Derivative.exists_error_atDefaultStep (g := g) infinite
      exact summarizes.skipped_pos (by omega) undefined

open Curve (identity draws_identity eval_identity)

/-- Between finite doubles `x` has a value everywhere. -/
theorem exists_eval_of_between (finiteLo : Arith.isFinite lo) (finiteHi : Arith.isFinite hi)
    (x : Float) (low : Arith.le lo x) (high : Arith.le x hi) : ∃ y, identity.eval x = .ok y :=
  ⟨x, eval_identity (isFinite_of_le finiteLo finiteHi low high)⟩

/-- A grid between minus one and two. -/
theorem spans_unless_overflows_identity :
    Arith.isFinite (-1 : Float) ∧ Arith.isFinite (2 : Float) ∧ Arith.lt (-1 : Float) 2 ∧
      Arith.isFinite ((2 - -1 : Float) * Arith.ofNat (4 - 1)) ∧
      points (-1 : Float) 2 4 = [-1, -0.25, 0.5, 1.25, 2] ∧
      Spans (-1) 2 (points (-1) 2 4) ∧
      (∃ s, Scan.bracket identity (-1) 2 4 = .ok s ∧ s.gaps = 0 ∧ s.samples.size = 5) ∧
      ∃ c, Contraction.check identity (-1) 2 5 = .ok c ∧
        Contraction.check identity 2 (-1) 5 = .ok c ∧
        c = Contraction.along identity.eval [-1, -0.25, 0.5, 1.25, 2] := by
  have finiteLo : Arith.isFinite (-1 : Float) := by decide +kernel
  have finiteHi : Arith.isFinite (2 : Float) := by decide +kernel
  have ascending : Arith.lt (-1 : Float) 2 := by decide +kernel
  have finite : Arith.isFinite ((2 - -1 : Float) * Arith.ofNat (4 - 1)) := by decide +kernel
  have grid : points (-1 : Float) 2 4 = [-1, -0.25, 0.5, 1.25, 2] := by decide +kernel
  obtain ⟨scans, checks⟩ := spans_unless_overflows finiteLo finiteHi ascending
  obtain ⟨s, scanned, -, -, spans, whole, -⟩ := scans identity 4 (by decide) (by decide)
  obtain ⟨c, checked, reversed, along, -⟩ := checks identity 5 (by decide) (by decide)
  exact ⟨finiteLo, finiteHi, ascending, finite, grid, spans.mpr finite,
    ⟨s, scanned, whole finite (exists_eval_of_between finiteLo finiteHi)⟩,
    c, checked, reversed, grid ▸ along⟩

/-- The width between two huge numbers of different sign overflows.  A scan of `x` between them has
a gap at its lower end, and a check skips that end, though `x` has a value everywhere between. -/
theorem gap_of_overflow :
    Expression.Draws "x" identity ∧ Arith.isFinite (-1.5e308 : Float) ∧
      Arith.isFinite (1.5e308 : Float) ∧ Arith.lt (-1.5e308 : Float) 1.5e308 ∧
      (∀ x, Arith.le (-1.5e308) x → Arith.le x 1.5e308 → ∃ y, identity.eval x = .ok y) ∧
      Scan.bracket identity (-1.5e308) 1.5e308 1 = .ok ⟨#[], #[⟨1.5e308, 1.5e308⟩], 1⟩ ∧
      (¬ Arith.isFinite (point (-1.5e308 : Float) 1.5e308 1 0)) ∧
      ¬ Spans (-1.5e308) 1.5e308 (points (-1.5e308) 1.5e308 1) ∧
      Contraction.check identity (-1.5e308) 1.5e308 2 =
        .ok ⟨some 0.9999999999976222, 1, 1⟩ := by
  have finiteLo : Arith.isFinite (-1.5e308 : Float) := by decide +kernel
  have finiteHi : Arith.isFinite (1.5e308 : Float) := by decide +kernel
  have infinite : ¬ Arith.isFinite (point (-1.5e308 : Float) 1.5e308 1 0) := by decide +kernel
  refine ⟨draws_identity, finiteLo, finiteHi, by decide +kernel,
    exists_eval_of_between finiteLo finiteHi, by decide +kernel, infinite, fun spans ↦ ?_,
    by decide +kernel⟩
  exact infinite (spans.finite _ (mem_points.mpr ⟨0, Nat.zero_le _, rfl⟩))

end Grid

end ScalarSolve
