import ScalarSolve.Proofs.Arith.Operations

/-!
# Quotients and counts

The quotient of two finite doubles is the exact one rounded too.  The mantissa of the dividend gets
as many more digits as the quotient needs, is divided as an integer, and the remainder says on which
side of the middle the quotient is.  Small counts are doubles as they are, and what is not finite
does not become finite again.
-/

namespace ScalarSolve.Double

open Float.Model Float.Model.UnpackedFloat

/-! ## Quotients -/

theorem describes_div (n : Nat) {k : Nat} (positive : 0 < k) :
    Describes (n / k) (.ofMantissaAndAccuracy (n / k) (accuracyOfFraction (n % k) k)) := by
  have pos : (0 : ℚ) < k := Nat.cast_pos.mpr positive
  have whole : (n / k : ℚ) = (n / k : ℕ) + (n % k : ℕ) / k := by
    rw [div_eq_iff pos.ne', add_mul, div_mul_cancel₀ _ pos.ne']
    exact_mod_cast (Nat.div_add_mod' n k).symm
  have below : ((n % k : ℕ) : ℚ) < k := by exact_mod_cast Nat.mod_lt n positive
  rw [whole]
  obtain ⟨r, rest⟩ : ∃ r, r = n % k := ⟨_, rfl⟩
  rw [← rest] at below ⊢
  unfold accuracyOfFraction
  split
  · next none =>
      rw [none, Nat.cast_zero, zero_div, add_zero]
      exact describes_exact _
  · next some =>
      have above : (0 : ℚ) < r := Nat.cast_pos.mpr (Nat.pos_of_ne_zero some)
      have low : (0 : ℚ) < r / k := div_pos above pos
      have high : (r / k : ℚ) < 1 := (div_lt_one pos).mpr below
      cases side : compare (2 * r) k with
      | lt =>
          have side : (r : ℚ) * 2 < k := by
            exact_mod_cast mul_comm 2 r ▸ Nat.compare_eq_lt.mp side
          have half : (r / k : ℚ) < 1 / 2 := by
            rw [div_lt_iff₀ pos]
            linarith
          norm_num [Describes, ExtendedMantissa.ofMantissaAndAccuracy]
          exact ⟨low, by linarith⟩
      | eq =>
          have side : (r : ℚ) * 2 = k := by
            exact_mod_cast mul_comm 2 r ▸ Nat.compare_eq_eq.mp side
          have half : (r / k : ℚ) = 1 / 2 := by
            rw [div_eq_iff pos.ne']
            linarith
          norm_num [Describes, ExtendedMantissa.ofMantissaAndAccuracy]
          linarith
      | gt =>
          have side : (k : ℚ) < r * 2 := by
            exact_mod_cast mul_comm 2 r ▸ Nat.compare_eq_gt.mp side
          have half : (1 / 2 : ℚ) < r / k := by
            rw [lt_div_iff₀ pos]
            linarith
          norm_num [Describes, ExtendedMantissa.ofMantissaAndAccuracy]
          constructor <;> linarith

/-- A quotient has the digits of the dividend less those of the divisor, or one less than that. -/
theorem le_log_div {m m' : Nat} (positive : 0 < m) (positive' : 0 < m') (e e' : Int) :
    totalExponent m e - totalExponent m' e' - 1 ≤
      Int.log 2 ((m * 2 ^ e : ℚ) / (m' * 2 ^ e')) := by
  have log := log_mul_zpow positive le_rfl (lt_add_one _) e
  have log' := log_mul_zpow positive' le_rfl (lt_add_one _) e'
  have pos := mul_zpow_pos positive e
  have pos' := mul_zpow_pos positive' e'
  have low := zpow_log_le pos.ne'
  have high := lt_zpow_log (m' * 2 ^ e')
  rw [log, abs_of_pos pos] at low
  rw [log', abs_of_pos pos'] at high
  rw [← Int.zpow_le_iff_le_log one_lt_two (div_pos pos pos'), Nat.cast_ofNat, le_div_iff₀ pos']
  calc (2 : ℚ) ^ (totalExponent m e - totalExponent m' e' - 1) * (m' * 2 ^ e')
      ≤ 2 ^ (totalExponent m e - totalExponent m' e' - 1) * 2 ^ (m'.log2 + e' + 1 : ℤ) :=
        mul_le_mul_of_nonneg_left high.le (two_zpow_pos _).le
    _ = 2 ^ (m.log2 + e : ℤ) := by
        rw [← zpow_add₀ two_ne_zero]
        congr 1
        unfold totalExponent
        ring
    _ ≤ m * 2 ^ e := low

/-- A positive quotient is rounded. -/
theorem rounds_divCore (s : Sign) {m m' : Nat} (positive : 0 < m) (positive' : 0 < m')
    (e e' : Int) :
    Rounds (s.apply 1 * ((m * 2 ^ e) / (m' * 2 ^ e')))
      (roundWithAccuracy .binary64 s (divCore .binary64 m e m' e').1
        (divCore .binary64 m e m' e').2.1 (divCore .binary64 m e m' e').2.2) := by
  unfold divCore
  dsimp only
  obtain ⟨t, target⟩ : ∃ t, t = min (e - e')
      (Format.binary64.targetExponent (totalExponent m e - totalExponent m' e')) := ⟨_, rfl⟩
  rw [← target]
  obtain ⟨k, shift⟩ : ∃ k : ℕ, e - e' = t + k := ⟨(e - e' - t).toNat, by omega⟩
  have amount : (e - e' - t).toNat = k := by omega
  have shifted : ((m * 2 ^ e) / (m' * 2 ^ e') : ℚ) = (m <<< k : ℕ) / m' * 2 ^ t := by
    rw [mul_div_mul_comm, ← zpow_sub₀ two_ne_zero, shift, zpow_add₀ two_ne_zero, zpow_natCast,
      Nat.shiftLeft_eq, Nat.cast_mul, Nat.cast_pow, Nat.cast_ofNat]
    ring
  have pos : (0 : ℚ) < (m <<< k : ℕ) / m' := by
    rw [Nat.shiftLeft_eq]
    exact div_pos (Nat.cast_pos.mpr (Nat.mul_pos positive (Nat.two_pow_pos k)))
      (Nat.cast_pos.mpr positive')
  have log := le_log_div positive positive' e e'
  rw [amount]
  rw [shifted] at log ⊢
  refine rounds_roundWithAccuracy s pos (describes_div _ positive') ?_
  rw [lastPlace, abs_of_pos (mul_pos pos (two_zpow_pos t))]
  change t = min _ (max (totalExponent m e - totalExponent m' e' - (53 : Nat)) (-1074)) at target
  omega

theorem apply_div (s s' : Sign) (q q' : ℚ) :
    s.apply 1 * q / (s'.apply 1 * q') = (s / s').apply 1 * (q / q') := by
  cases s <;> cases s'
  · change (-1 : ℤ) * q / ((-1 : ℤ) * q') = (1 : ℤ) * _
    push_cast
    rw [neg_one_mul, neg_one_mul, neg_div_neg_eq, one_mul]
  · change (-1 : ℤ) * q / ((1 : ℤ) * q') = (-1 : ℤ) * _
    push_cast
    ring
  · change (1 : ℤ) * q / ((-1 : ℤ) * q') = (-1 : ℤ) * _
    push_cast
    rw [one_mul, neg_one_mul, neg_one_mul, div_neg]
  · change (1 : ℤ) * q / ((1 : ℤ) * q') = (1 : ℤ) * _
    push_cast
    ring

variable {u v : UnpackedFloat}

/-- A quotient is the exact quotient rounded. -/
theorem rounds_div (hu : Canonical u) (hv : Canonical v) (nonzero : valueOf v ≠ 0) :
    Rounds (valueOf u / valueOf v) (UnpackedFloat.div .binary64 u v) := by
  cases v with
  | infinity | notANumber => cases hv
  | zero s' => exact absurd rfl nonzero
  | finite s' m' e' positive' =>
      cases u with
      | infinity | notANumber => cases hu
      | zero s =>
          change Rounds (0 / _) (.zero _)
          rw [zero_div]
          exact rounds_zero _
      | finite s m e positive =>
          have rounds := rounds_divCore (s / s') positive positive' e e'
          rw [← apply_div, ← mul_assoc, ← mul_assoc, ← cast_apply, ← cast_apply] at rounds
          exact rounds

variable {x y : Float}

theorem isRounded_div (finiteX : Arith.isFinite x) (finiteY : Arith.isFinite y)
    (nonzero : value y ≠ 0) : IsRounded (value x / value y) (x / y) :=
  (rounds_div (canonical_of_isFinite finiteX) (canonical_of_isFinite finiteY) nonzero).isRounded rfl

/-- A number that is a double is rounded to itself. -/
theorem IsRounded.exact {q : ℚ} {z : Float} (h : IsRounded q z) (rep : Representable q)
    (small : |q| < 2 ^ (1024 : ℤ)) : Arith.isFinite z ∧ Double.value z = q := by
  have same := round_of_representable rep
  have finite : Arith.isFinite z := h.finite_iff.mpr (same.symm ▸ small)
  exact ⟨finite, (h.value finite).trans same⟩

/-! ## Counts -/

theorem unpack_one : (Float.ofBits 0x3FF0000000000000).toModel.unpack =
    .finite .positive (2 ^ 52) (-52) (Nat.two_pow_pos 52) :=
  rfl

theorem value_one : value (Float.ofBits 0x3FF0000000000000) = 1 := by
  rw [value, unpack_one]
  change ((2 ^ 52 : ℕ) : ℤ) * (2 : ℚ) ^ (-52 : ℤ) = 1
  norm_num

variable {n : Nat}

/-- A count is read as a decimal, which for a few digits is a product with one. -/
theorem ofNat_eq (small : n < 2 ^ 53) :
    (Arith.ofNat n : Float) = n.toUInt64.toFloat * Float.ofBits 0x3FF0000000000000 := by
  change Float.ofScientific n false 0 = _
  unfold Float.ofScientific
  rw [dif_pos ⟨small, by decide⟩]
  rfl

theorem isRounded_toFloat (small : n < 2 ^ 53) : IsRounded n n.toUInt64.toFloat := by
  have count : n.toUInt64.toNat = n := by
    rw [Nat.toUInt64_eq, UInt64.toNat_ofNat']
    omega
  have rounds := rounds_normalize n.toUInt64.toNat 0 .positive
  rw [zpow_zero, mul_one, Int.cast_natCast] at rounds
  have rounded : IsRounded n.toUInt64.toNat n.toUInt64.toFloat := rounds.isRounded rfl
  rwa [count] at rounded

/-- Counts of up to 53 binary digits are doubles. -/
theorem ofNat_exact (small : n < 2 ^ 53) :
    Arith.isFinite (Arith.ofNat n : Float) ∧ value (Arith.ofNat n) = n := by
  have rep : Representable n :=
    ⟨n, 0, by rw [Nat.abs_cast]; exact_mod_cast small, by decide, by simp⟩
  have range : |(n : ℚ)| < 2 ^ (1024 : ℤ) := by
    rw [Nat.abs_cast]
    calc (n : ℚ) < (2 ^ 53 : ℕ) := by exact_mod_cast small
      _ ≤ 2 ^ (1024 : ℤ) := by
          rw [Nat.cast_pow, Nat.cast_ofNat, ← zpow_natCast]
          exact zpow_le_zpow_right₀ one_le_two (by decide)
  obtain ⟨finite, exact⟩ := (isRounded_toFloat small).exact rep range
  have product := isRounded_mul finite (y := Float.ofBits 0x3FF0000000000000) (by decide +kernel)
  rw [exact, value_one, mul_one] at product
  rw [ofNat_eq small]
  exact product.exact rep range

/-! ## Finite results -/

variable {x y : Float}

/-- What is packed is finite before it has been packed. -/
theorem isFinite_of_packed {u : UnpackedFloat} {z : Float}
    (packed : z.toModel.unpack = UnpackedFloat.unpack .binary64 (UnpackedFloat.pack .binary64 u))
    (h : Arith.isFinite z) : u.isFinite := by
  have finite : z.toModel.unpack.isFinite := h
  rw [packed] at finite
  cases u with
  | zero | finite => rfl
  | infinity s =>
      rw [unpack_pack_infinity] at finite
      cases finite
  | notANumber => cases finite

theorem isFinite_of_unpacked_add {u v : UnpackedFloat}
    (h : (UnpackedFloat.add .binary64 u v).isFinite) : u.isFinite ∧ v.isFinite := by
  cases u with
  | notANumber => cases h
  | infinity s =>
      cases v with
      | infinity s' => cases s <;> cases s' <;> cases h
      | notANumber | zero | finite => cases h
  | zero s | finite s m e positive =>
      cases v with
      | notANumber | infinity => cases h
      | zero | finite => exact ⟨rfl, rfl⟩

theorem isFinite_of_unpacked_mul {u v : UnpackedFloat}
    (h : (UnpackedFloat.mul .binary64 u v).isFinite) : u.isFinite := by
  cases u with
  | zero | finite => rfl
  | notANumber => cases h
  | infinity s => cases v <;> cases h

theorem isFinite_of_unpacked_div {u v : UnpackedFloat}
    (h : (UnpackedFloat.div .binary64 u v).isFinite) : u.isFinite := by
  cases u with
  | zero | finite => rfl
  | notANumber => cases h
  | infinity s => cases v <;> cases h

theorem unpack_add (x y : Float) : (x + y).toModel.unpack =
    UnpackedFloat.unpack .binary64 (UnpackedFloat.pack .binary64
      (UnpackedFloat.add .binary64 x.toModel.unpack y.toModel.unpack)) := rfl

theorem unpack_mul (x y : Float) : (x * y).toModel.unpack =
    UnpackedFloat.unpack .binary64 (UnpackedFloat.pack .binary64
      (UnpackedFloat.mul .binary64 x.toModel.unpack y.toModel.unpack)) := rfl

theorem unpack_div (x y : Float) : (x / y).toModel.unpack =
    UnpackedFloat.unpack .binary64 (UnpackedFloat.pack .binary64
      (UnpackedFloat.div .binary64 x.toModel.unpack y.toModel.unpack)) := rfl

/-- A sum that is finite has finite summands. -/
theorem isFinite_of_add (h : Arith.isFinite (x + y)) : Arith.isFinite x ∧ Arith.isFinite y := by
  have finite := isFinite_of_packed (unpack_add x y) h
  exact isFinite_of_unpacked_add finite

theorem isFinite_of_mul (h : Arith.isFinite (x * y)) : Arith.isFinite x := by
  have finite := isFinite_of_packed (unpack_mul x y) h
  exact isFinite_of_unpacked_mul finite

theorem isFinite_of_div (h : Arith.isFinite (x / y)) : Arith.isFinite x := by
  have finite := isFinite_of_packed (unpack_div x y) h
  exact isFinite_of_unpacked_div finite

end ScalarSolve.Double
