import ScalarSolve.Proofs.Arith.Division
import ScalarSolve.Region.Grid

/-!
# How the points of a grid are spaced

A point of a uniform grid over doubles is the lower end plus an offset.  The offset of the last
point is the width itself; all others are the width times a count, divided by the number of parts,
with a rounding after every operation.  As long as nothing overflows, offsets ascend and none of
them passes the width: they are off by a few parts in `2 ^ 53`, and the last one that is computed is
short of the width by at least a part in 100000.
-/

namespace ScalarSolve.Double

variable {lo hi : ℚ} {steps i j : ℕ}

/-- The numbers of a grid, in order and with doubles as ends. -/
structure Frame (lo hi : ℚ) (steps : ℕ) : Prop where
  repLo : Representable lo
  repHi : Representable hi
  ascending : lo < hi
  any : 1 ≤ steps
  few : steps ≤ 100000

/-- How far above the lower end the point with a number is, before the two are added. -/
def offset (lo hi : ℚ) (steps i : ℕ) : ℚ :=
  if i = steps then hi - lo else round (round (round (hi - lo) * i) / steps)

theorem offset_last : offset lo hi steps steps = hi - lo := if_pos rfl

theorem offset_of_lt (lt : i < steps) :
    offset lo hi steps i = round (round (round (hi - lo) * i) / steps) :=
  if_neg lt.ne

theorem multiple_mul {q : ℚ} (h : Representable q) (k : ℕ) :
    ∃ n : ℤ, q * k = n * 2 ^ (-1074 : ℤ) := by
  obtain ⟨n, rfl⟩ := h.exists_multiple
  exact ⟨n * k, by rw [Int.cast_mul, Int.cast_natCast, mul_right_comm]⟩

theorem abs_mul_sub_le {a b c k : ℚ} (near : |a - b| ≤ c) (nonneg : 0 ≤ k) :
    |a * k - b * k| ≤ c * k := by
  rw [← sub_mul, abs_mul, abs_of_nonneg nonneg]
  exact mul_le_mul_of_nonneg_right near nonneg

theorem abs_div_sub_le {a b c k : ℚ} (near : |a - b| ≤ c * b) (positive : 0 < k) :
    |a / k - b / k| ≤ c * (b / k) := by
  rw [← sub_div, abs_div, abs_of_pos positive, ← mul_div_assoc]
  exact div_le_div_of_nonneg_right near positive.le

namespace Frame

variable (h : Frame lo hi steps)

include h

theorem width_pos : 0 < hi - lo := sub_pos.mpr h.ascending

theorem steps_pos : (0 : ℚ) < steps := Nat.cast_pos.mpr h.any

theorem steps_le : (steps : ℚ) ≤ 100000 := by exact_mod_cast h.few

theorem exists_multiple : ∃ n : ℤ, hi - lo = n * 2 ^ (-1074 : ℤ) := by
  obtain ⟨n, eq⟩ := h.repLo.exists_multiple
  obtain ⟨k, eq'⟩ := h.repHi.exists_multiple
  exact ⟨k - n, by rw [eq, eq', Int.cast_sub, sub_mul]⟩

theorem abs_round_width_sub_le : |round (hi - lo) - (hi - lo)| ≤ (hi - lo) / 2 ^ 53 := by
  obtain ⟨n, multiple⟩ := h.exists_multiple
  have near := abs_round_sub_le_of_multiple multiple
  rwa [abs_of_pos h.width_pos] at near

/-- The dividend of an offset is off by two roundings. -/
theorem abs_dividend_sub_le (i : ℕ) :
    |round (round (hi - lo) * i) - (hi - lo) * i| ≤ 3 / 2 ^ 53 * ((hi - lo) * i) := by
  obtain ⟨n, multiple⟩ := multiple_mul (representable_round (hi - lo)) i
  have width := abs_mul_sub_le h.abs_round_width_sub_le (Nat.cast_nonneg i)
  have product := abs_round_sub_le_of_multiple multiple
  rw [abs_of_nonneg (mul_nonneg (round_nonneg h.width_pos.le) (Nat.cast_nonneg i))] at product
  have exact : 0 ≤ (hi - lo) * i := mul_nonneg h.width_pos.le (Nat.cast_nonneg i)
  rw [abs_le] at *
  constructor <;> linarith

/-- An offset is off by three roundings, the last of which may go to the least positive number. -/
theorem abs_offset_sub_le (le : i ≤ steps) :
    |offset lo hi steps i - (hi - lo) * i / steps| ≤
      5 / 2 ^ 53 * ((hi - lo) * i / steps) + 2 ^ (-1074 : ℤ) / 2 := by
  have exact : 0 ≤ (hi - lo) * i / steps :=
    div_nonneg (mul_nonneg h.width_pos.le (Nat.cast_nonneg i)) h.steps_pos.le
  have least := two_zpow_pos (-1074)
  rcases le.lt_or_eq with lt | rfl
  · rw [offset_of_lt lt]
    have dividend := abs_div_sub_le (h.abs_dividend_sub_le i) h.steps_pos
    have quotient := abs_round_sub_le_add (round (round (hi - lo) * i) / steps)
    have nonneg : 0 ≤ round (round (hi - lo) * i) / steps := by
      refine div_nonneg (round_nonneg ?_) h.steps_pos.le
      exact mul_nonneg (round_nonneg h.width_pos.le) (Nat.cast_nonneg i)
    rw [abs_of_nonneg nonneg] at quotient
    rw [abs_le] at *
    constructor <;> linarith
  · rw [offset_last, mul_div_cancel_right₀ _ h.steps_pos.ne', sub_self, abs_zero]
    linarith [h.width_pos]

/-- A part of the width is far longer than what offsets are off in proportion to it. -/
theorem error_le : (hi - lo) * (5 / 2 ^ 53) ≤ (hi - lo) / steps / 10 ^ 9 := by
  have part : hi - lo = (hi - lo) / steps * steps := (div_mul_cancel₀ _ h.steps_pos.ne').symm
  have bound := mul_le_mul_of_nonneg_left h.steps_le (div_pos h.width_pos h.steps_pos).le
  rw [← part] at bound
  linarith [h.width_pos]

theorem part_le_of_lt (lt : i < steps) :
    (hi - lo) * i / steps ≤ hi - lo - (hi - lo) / steps := by
  have count : (i : ℚ) ≤ steps - 1 := by
    rw [le_sub_iff_add_le]
    exact_mod_cast lt
  calc (hi - lo) * i / steps ≤ (hi - lo) * (steps - 1) / steps :=
        div_le_div_of_nonneg_right (mul_le_mul_of_nonneg_left count h.width_pos.le) h.steps_pos.le
    _ = hi - lo - (hi - lo) / steps := by
        rw [mul_sub, mul_one, sub_div, mul_div_cancel_right₀ _ h.steps_pos.ne']

/-- Unless it is the last one, a point is short of the width by almost a part. -/
theorem offset_le_of_lt (lt : i < steps) :
    offset lo hi steps i ≤
      hi - lo - (hi - lo) / steps * (1 - 1 / 10 ^ 9) + 2 ^ (-1074 : ℤ) / 2 := by
  have off := (abs_le.mp (h.abs_offset_sub_le lt.le)).2
  have part := h.part_le_of_lt lt
  have error := h.error_le
  have positive := div_pos h.width_pos h.steps_pos
  linarith

/-- No offset passes the width. -/
theorem offset_le (le : i ≤ steps) : offset lo hi steps i ≤ hi - lo := by
  rcases le.lt_or_eq with lt | rfl
  · have positive := div_pos h.width_pos h.steps_pos
    by_cases least : lastPlace (hi - lo) = -1074
    · -- Such a width is exact, so that the quotient is only rounded to what the width is itself.
      obtain ⟨n, multiple⟩ := h.exists_multiple
      rw [offset_of_lt lt]
      refine round_le (representable_of_multiple multiple (lt_of_lastPlace least)) ?_
      have dividend := (abs_le.mp (abs_div_sub_le (h.abs_dividend_sub_le i) h.steps_pos)).2
      have part := h.part_le_of_lt lt
      have error := h.error_le
      linarith
    · -- A part of any other width is longer than the last rounding goes.
      have place : -1074 ≤ lastPlace (hi - lo) := le_max_right _ _
      have binade := zpow_le_abs h.width_pos.ne' (lt_of_le_of_ne place (Ne.symm least))
      rw [abs_of_pos h.width_pos] at binade
      have wide : (2 : ℚ) ^ (-1074 + 53 : ℤ) ≤ hi - lo :=
        (zpow_le_zpow_right₀ one_le_two (by omega)).trans binade
      rw [zpow_add₀ two_ne_zero] at wide
      have part : (2 : ℚ) ^ (-1074 : ℤ) ≤ (hi - lo) / steps := by
        rw [le_div_iff₀ h.steps_pos]
        refine (mul_le_mul_of_nonneg_left (h.steps_le.trans ?_) (two_zpow_pos _).le).trans wide
        norm_num
      have short := h.offset_le_of_lt lt
      linarith
  · rw [offset_last]

theorem offset_nonneg (le : i ≤ steps) : 0 ≤ offset lo hi steps i := by
  rcases le.lt_or_eq with lt | rfl
  · rw [offset_of_lt lt]
    refine round_nonneg (div_nonneg (round_nonneg ?_) h.steps_pos.le)
    exact mul_nonneg (round_nonneg h.width_pos.le) (Nat.cast_nonneg i)
  · rw [offset_last]
    exact h.width_pos.le

/-- Offsets ascend. -/
theorem offset_mono (ascending : i ≤ j) (le : j ≤ steps) :
    offset lo hi steps i ≤ offset lo hi steps j := by
  rcases le.lt_or_eq with lt | rfl
  · rw [offset_of_lt (ascending.trans_lt lt), offset_of_lt lt]
    have count : (i : ℚ) ≤ j := Nat.cast_le.mpr ascending
    have product := mul_le_mul_of_nonneg_left count (round_nonneg h.width_pos.le)
    exact round_mono (div_le_div_of_nonneg_right (round_mono product) h.steps_pos.le)
  · rw [offset_last]
    exact h.offset_le ascending

theorem exists_multiple_offset (i : ℕ) :
    ∃ n : ℤ, offset lo hi steps i = n * 2 ^ (-1074 : ℤ) := by
  unfold offset
  split
  · exact h.exists_multiple
  · exact (representable_round _).exists_multiple

/-- The points of two offsets are one part apart, but for what both of them are off. -/
theorem offset_add_le_of_lt (lt : i < j) (le : j ≤ steps) :
    offset lo hi steps i + (hi - lo) / steps * (1 - 1 / 10 ^ 8) - 2 ^ (-1074 : ℤ) ≤
      offset lo hi steps j := by
  have low := (abs_le.mp (h.abs_offset_sub_le (lt.le.trans le))).2
  have high := (abs_le.mp (h.abs_offset_sub_le le)).1
  have error := h.error_le
  have part : (hi - lo) * i / steps + (hi - lo) / steps ≤ (hi - lo) * j / steps := by
    have count : (i + 1 : ℚ) ≤ j := by exact_mod_cast lt
    rw [← add_div]
    refine div_le_div_of_nonneg_right ?_ h.steps_pos.le
    have scaled := mul_le_mul_of_nonneg_left count h.width_pos.le
    linarith
  have whole : (hi - lo) * j / steps ≤ hi - lo := by
    rw [div_le_iff₀ h.steps_pos]
    exact mul_le_mul_of_nonneg_left (Nat.cast_le.mpr le) h.width_pos.le
  have positive := div_pos h.width_pos h.steps_pos
  linarith

theorem between (le : i ≤ steps) :
    lo ≤ lo + offset lo hi steps i ∧ lo + offset lo hi steps i ≤ hi := by
  have nonneg := h.offset_nonneg le
  have short := h.offset_le le
  constructor <;> linarith

/-- Points with different numbers are different as long as parts are at least two units wide in the
last place of the end of greater magnitude. -/
theorem round_add_offset_lt (wide : 2 * 2 ^ lastPlace (max |lo| |hi|) * steps ≤ hi - lo)
    (lt : i < j) (le : j ≤ steps) :
    round (lo + offset lo hi steps i) < round (lo + offset lo hi steps j) := by
  obtain ⟨lowI, highI⟩ := h.between (lt.le.trans le)
  obtain ⟨lowJ, highJ⟩ := h.between le
  have withinI := (abs_le_max_abs_abs lowI highI).trans (le_abs_self _)
  have withinJ := (abs_le_max_abs_abs lowJ highJ).trans (le_abs_self _)
  have apart := h.offset_add_le_of_lt lt le
  rw [← le_div_iff₀ h.steps_pos] at wide
  have unit := two_zpow_pos (-1074)
  have place : -1074 ≤ lastPlace (max |lo| |hi|) := le_max_right _ _
  rcases place.lt_or_eq with normal | least
  · have twice : 2 * (2 : ℚ) ^ (-1074 : ℤ) ≤ 2 ^ lastPlace (max |lo| |hi|) := by
      rw [mul_comm, ← zpow_add_one₀ two_ne_zero]
      exact zpow_le_zpow_right₀ one_le_two normal
    have nearI := (abs_le.mp (abs_round_sub_le_of_abs_le withinI)).2
    have nearJ := (abs_le.mp (abs_round_sub_le_of_abs_le withinJ)).1
    linarith
  · -- All numbers in reach are multiples of the unit, and nothing is rounded any more.
    have exact (k : ℕ) (within : |lo + offset lo hi steps k| ≤ |(max |lo| |hi|)|) :
        round (lo + offset lo hi steps k) = lo + offset lo hi steps k := by
      obtain ⟨n, multiple⟩ := h.repLo.exists_multiple
      obtain ⟨n', multiple'⟩ := h.exists_multiple_offset k
      refine round_of_representable (representable_of_multiple (n := n + n') ?_
        (within.trans_lt (lt_of_lastPlace least.symm)))
      rw [Int.cast_add, add_mul, ← multiple, ← multiple']
    rw [exact i withinI, exact j withinJ]
    rw [← least] at wide
    linarith

end Frame

end ScalarSolve.Double

/-! ## Points -/

namespace ScalarSolve.Grid

open Double

/-- A grid over doubles that are finite and in order, with an admitted number of parts. -/
structure Admitted (lo hi : Float) (steps : ℕ) : Prop where
  finiteLo : Arith.isFinite lo
  finiteHi : Arith.isFinite hi
  ascending : Arith.lt lo hi
  any : 1 ≤ steps
  few : steps ≤ 100000

variable {lo hi : Float} {steps i j : ℕ}

theorem point_of_lt (lt : i < steps) :
    point lo hi steps i = lo + (hi - lo) * Arith.ofNat i / Arith.ofNat steps :=
  if_neg lt.ne

namespace Admitted

variable (h : Admitted lo hi steps)

include h

theorem frame : Frame (value lo) (value hi) steps where
  repLo := representable_value h.finiteLo
  repHi := representable_value h.finiteHi
  ascending := (lt_iff_value h.finiteLo h.finiteHi).mp h.ascending
  any := h.any
  few := h.few

theorem count (le : i ≤ steps) :
    Arith.isFinite (Arith.ofNat i : Float) ∧ value (Arith.ofNat i) = i :=
  ofNat_exact ((le.trans h.few).trans_lt (by decide))

theorem isRounded_dividend (le : i ≤ steps) (width : Arith.isFinite (hi - lo)) :
    IsRounded (Double.round (value hi - value lo) * i) ((hi - lo) * Arith.ofNat i) := by
  obtain ⟨finite, exact⟩ := h.count le
  have product := isRounded_mul width finite
  rwa [(isRounded_sub h.finiteHi h.finiteLo).value width, exact] at product

theorem isRounded_quotient (le : i ≤ steps)
    (dividend : Arith.isFinite ((hi - lo) * Arith.ofNat i)) :
    IsRounded (Double.round (Double.round (value hi - value lo) * i) / steps)
      ((hi - lo) * Arith.ofNat i / Arith.ofNat steps) := by
  obtain ⟨finite, exact⟩ := h.count le_rfl
  have nonzero : value (Arith.ofNat steps) ≠ 0 := exact ▸ h.frame.steps_pos.ne'
  have quotient := isRounded_div dividend finite nonzero
  rwa [(h.isRounded_dividend le (isFinite_of_mul dividend)).value dividend, exact] at quotient

/-- A quotient is finite if its dividend is. -/
theorem isFinite_quotient (lt : i < steps)
    (dividend : Arith.isFinite ((hi - lo) * Arith.ofNat i)) :
    Arith.isFinite ((hi - lo) * Arith.ofNat i / Arith.ofNat steps) := by
  have rounded := h.isRounded_dividend lt.le (isFinite_of_mul dividend)
  have quotient := h.isRounded_quotient lt.le dividend
  have range := rounded.finite_iff.mp dividend
  have nonneg : 0 ≤ Double.round (Double.round (value hi - value lo) * i) :=
    round_nonneg (mul_nonneg (round_nonneg h.frame.width_pos.le) (Nat.cast_nonneg i))
  have any : (1 : ℚ) ≤ steps := by exact_mod_cast h.any
  have less := round_mono (div_le_self nonneg any)
  rw [round_of_representable (representable_round _)] at less
  rw [quotient.finite_iff, abs_of_nonneg (round_nonneg (div_nonneg nonneg h.frame.steps_pos.le))]
  rw [abs_of_nonneg nonneg] at range
  exact less.trans_lt range

/-- A point is finite if nothing overflows until the division. -/
theorem isFinite_point_iff (lt : i < steps) :
    Arith.isFinite (point lo hi steps i) ↔ Arith.isFinite ((hi - lo) * Arith.ofNat i) := by
  rw [point_of_lt lt]
  constructor
  · exact fun finite ↦ isFinite_of_div (isFinite_of_add finite).2
  · intro dividend
    have finite := h.isFinite_quotient lt dividend
    have sum := isRounded_add h.finiteLo finite
    have short := h.frame.between lt.le
    rw [offset_of_lt lt, ← (h.isRounded_quotient lt.le dividend).value finite] at short
    obtain ⟨low, high⟩ := between_of_isRounded sum h.finiteLo h.finiteHi short.1 short.2
    exact isFinite_of_le h.finiteLo h.finiteHi low high

/-- The number that a finite point stands for. -/
theorem value_point (le : i ≤ steps) (finite : Arith.isFinite (point lo hi steps i)) :
    value (point lo hi steps i) =
      Double.round (value lo + offset (value lo) (value hi) steps i) := by
  rcases le.lt_or_eq with lt | rfl
  · have dividend := (h.isFinite_point_iff lt).mp finite
    have quotient := h.isFinite_quotient lt dividend
    rw [point_of_lt lt] at finite ⊢
    rw [(isRounded_add h.finiteLo quotient).value finite,
      (h.isRounded_quotient le dividend).value quotient, offset_of_lt lt]
  · rw [point_last, offset_last, add_sub_cancel,
      round_of_representable (representable_value h.finiteHi)]

end Admitted

end ScalarSolve.Grid
