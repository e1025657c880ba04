import ScalarSolve.Proofs.Arith.Operations

/-!
# Midpoints of doubles

The midpoint of two doubles is the lower one and half of the width between them, all of it rounded.
Rounding cannot take it outside: the rounded half of the rounded width is not above a power of two
that is not above the width.  Overflow can, and does so whenever the width overflows.
-/

namespace ScalarSolve.Double

open Float.Model Float.Model.UnpackedFloat

/-- Half of a width, both rounded, is not above the exact width: there is a power of two between. -/
theorem round_half_le {lo hi : ℚ} (repLo : Representable lo) (repHi : Representable hi)
    (le : lo ≤ hi) : round (1 / 2 * round (hi - lo)) ≤ hi - lo := by
  rcases le.lt_or_eq with lt | rfl
  · have apart := zpow_le_sub repLo repHi lt
    have positive : 0 < hi - lo := sub_pos.mpr lt
    obtain ⟨k, log⟩ : ∃ k, Int.log 2 |hi - lo| = k := ⟨_, rfl⟩
    have power := zpow_log_le positive.ne'
    have next := lt_zpow_log (hi - lo)
    rw [abs_of_pos positive] at power next log
    have least : -1074 ≤ Int.log 2 (hi - lo) :=
      (Int.zpow_le_iff_le_log one_lt_two positive).mp apart
    rw [log] at least power next
    refine (round_le (representable_zpow least) ?_).trans power
    have width := round_le (representable_zpow (e := k + 1) (by omega)) next.le
    rw [zpow_add₀ two_ne_zero, zpow_one] at width
    linarith
  · rw [sub_self, round_zero, mul_zero, round_zero]

variable {x y : Float}

theorem isFinite_zero : Arith.isFinite (Arith.zero : Float) := rfl

theorem value_zero : value Arith.zero = 0 := rfl

theorem isFinite_half : Arith.isFinite (Arith.half : Float) := by decide +kernel

theorem unpack_half : (Arith.half : Float).toModel.unpack =
    .finite .positive (2 ^ 52) (-53) (Nat.two_pow_pos 52) :=
  rfl

theorem value_half : value Arith.half = 1 / 2 := by
  rw [value, unpack_half]
  change ((2 ^ 52 : ℕ) : ℤ) * (2 : ℚ) ^ (-53 : ℤ) = 1 / 2
  norm_num

theorem unpack_half_mul_infinity {s : Sign} (infinite : x.toModel.unpack = .infinity s) :
    (Arith.half * x).toModel.unpack = .infinity (.positive * s) := by
  change UnpackedFloat.unpack .binary64 (UnpackedFloat.pack .binary64
    (UnpackedFloat.mul .binary64 (Arith.half : Float).toModel.unpack x.toModel.unpack)) = _
  rw [infinite, unpack_half]
  exact unpack_pack_infinity _

theorem isFinite_sub_self (finite : Arith.isFinite x) : Arith.isFinite (x - x) := by
  rw [(isRounded_sub finite finite).finite_iff, sub_self, round_zero, abs_zero]
  exact two_zpow_pos 1024

/-- Between two ends the width does not overflow if it does not so between the ends. -/
theorem isFinite_sub {lo hi : Float} (finiteLo : Arith.isFinite lo) (finiteHi : Arith.isFinite hi)
    (width : Arith.isFinite (hi - lo)) (low : Arith.le lo x) (ordered : Arith.le x y)
    (high : Arith.le y hi) : Arith.isFinite (y - x) := by
  have finiteX := isFinite_of_le finiteLo finiteHi low (le_trans ordered high)
  have finiteY := isFinite_of_le finiteLo finiteHi (le_trans low ordered) high
  rw [(isRounded_sub finiteHi finiteLo).finite_iff] at width
  rw [le_iff_value finiteLo finiteX] at low
  rw [le_iff_value finiteX finiteY] at ordered
  rw [le_iff_value finiteY finiteHi] at high
  rw [(isRounded_sub finiteY finiteX).finite_iff,
    abs_of_nonneg (round_nonneg (sub_nonneg.mpr ordered))]
  exact (round_mono (sub_le_sub high low)).trans_lt ((le_abs_self _).trans_lt width)

/-- As long as the width between two finite doubles does not overflow, their midpoint is between
them. -/
theorem between_midpoint (finiteX : Arith.isFinite x) (finiteY : Arith.isFinite y)
    (ordered : Arith.le x y) (width : Arith.isFinite (y - x)) :
    Arith.le x (x + Arith.half * (y - x)) ∧ Arith.le (x + Arith.half * (y - x)) y := by
  rw [le_iff_value finiteX finiteY] at ordered
  have sub := isRounded_sub finiteY finiteX
  have mul := isRounded_mul isFinite_half width
  have nonneg : 0 ≤ value (y - x) := by
    rw [sub.value width]
    exact round_nonneg (sub_nonneg.mpr ordered)
  obtain ⟨low, high⟩ : Arith.le Arith.zero (Arith.half * (y - x)) ∧
      Arith.le (Arith.half * (y - x)) (y - x) := by
    refine between_of_isRounded mul isFinite_zero width ?_ ?_
    · rw [value_zero, value_half]
      linarith
    · rw [value_half]
      linarith
  have finite := isFinite_of_le isFinite_zero width low high
  rw [le_iff_value isFinite_zero finite, value_zero] at low
  have bound : value (Arith.half * (y - x)) ≤ value y - value x := by
    rw [mul.value finite, value_half, sub.value width]
    exact round_half_le (representable_value finiteX) (representable_value finiteY) ordered
  exact between_of_isRounded (isRounded_add finiteX finite) finiteX finiteY (by linarith)
    (by linarith)

/-- If it does, the midpoint is infinite. -/
theorem not_isFinite_midpoint (finiteX : Arith.isFinite x) (finiteY : Arith.isFinite y)
    (overflow : ¬ Arith.isFinite (y - x)) : ¬ Arith.isFinite (x + Arith.half * (y - x)) := by
  obtain ⟨s, width⟩ := (isRounded_sub finiteY finiteX).infinite overflow
  have unpacked := unpack_add_infinity finiteX (unpack_half_mul_infinity width)
  change ¬ (x + Arith.half * (y - x)).toModel.unpack.isFinite
  rw [unpacked]
  exact Bool.false_ne_true

end ScalarSolve.Double
