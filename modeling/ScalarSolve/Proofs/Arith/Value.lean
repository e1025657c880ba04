import ScalarSolve.Proofs.Arith.Order
import ScalarSolve.Proofs.Arith.Rounding

/-!
# The numbers that doubles stand for

A finite double stands for a rational number.  What has been unpacked has its digits in place: 53 of
them, the first of which is one unless the exponent is the least.  Packing keeps every such number
that is not too great, and turns the others into infinities; and on such numbers comparison of
doubles is comparison of the numbers.
-/

namespace ScalarSolve.Double

open Float.Model Float.Model.UnpackedFloat

/-- The number that an unpacked double stands for, if it is finite. -/
def valueOf : UnpackedFloat → ℚ
  | .finite s m e _ => s.apply m * 2 ^ e
  | .zero _ | .infinity _ | .notANumber => 0

/-- A finite number with its digits in place, whether it is too great for a double or not. -/
def Canonical : UnpackedFloat → Prop
  | .finite _ m e _ => m < 2 ^ 53 ∧ -1074 ≤ e ∧ (2 ^ 52 ≤ m ∨ e = -1074)
  | .zero _ => True
  | .infinity _ | .notANumber => False

theorem isFinite_of_canonical {u : UnpackedFloat} (h : Canonical u) : u.isFinite := by
  cases u with
  | zero | finite => rfl
  | infinity | notANumber => cases h

theorem representable_valueOf {u : UnpackedFloat} (h : Canonical u) :
    Representable (valueOf u) := by
  cases u with
  | infinity | notANumber => cases h
  | zero s => exact ⟨0, 0, by norm_num, by norm_num, by simp [valueOf]⟩
  | finite s m e positive =>
      obtain ⟨small, place, -⟩ := h
      refine ⟨s.apply m, e, ?_, place, rfl⟩
      cases s
      · change |-(m : ℤ)| < 2 ^ 53
        rw [abs_neg, Nat.abs_cast]
        exact_mod_cast small
      · change |(m : ℤ)| < 2 ^ 53
        rw [Nat.abs_cast]
        exact_mod_cast small

/-- The leading digit of a normal number is not written down. -/
theorem toNat_one_append (v : BitVec 52) : (1#1 ++ v).toNat = 2 ^ 52 + v.toNat := by
  rw [BitVec.toNat_append, ← Nat.shiftLeft_add_eq_or_of_lt v.isLt]
  rfl

theorem digits_of_unpack {b : BitVec Format.binary64.numBits} {s : Sign} {m : Nat} {e : Int}
    {positive : 0 < m} (h : UnpackedFloat.unpack .binary64 b = .finite s m e positive) :
    m < 2 ^ 53 ∧ -1074 ≤ e ∧ (2 ^ 52 ≤ m ∨ e = -1074) := by
  have bias : Format.binary64.exponentBias = 1023 := rfl
  have mantissa : (unpackMantissa b).toNat < 2 ^ 52 := (unpackMantissa b).isLt
  unfold UnpackedFloat.unpack at h
  dsimp only at h
  split at h
  · split at h <;> cases h
  · split at h
    · next zero =>
        split at h
        · cases h
        · cases h
          rw [zero, bias]
          exact ⟨by omega, by decide, .inr (by decide)⟩
    · next nonzero =>
        have exponent : (unpackExponent b).toNat ≠ 0 := fun eq ↦ nonzero (BitVec.eq_of_toNat_eq eq)
        cases h
        rw [toNat_one_append, bias]
        exact ⟨by omega, by omega, .inl (by omega)⟩

theorem canonical_unpack {b : BitVec Format.binary64.numBits}
    (finite : (UnpackedFloat.unpack .binary64 b).isFinite) :
    Canonical (UnpackedFloat.unpack .binary64 b) := by
  cases unpacked : UnpackedFloat.unpack .binary64 b with
  | zero s => trivial
  | finite s m e positive => exact digits_of_unpack unpacked
  | infinity | notANumber =>
      rw [unpacked] at finite
      cases finite

theorem unpackSign_packComponents {spec : Format} {s : Sign} {v : BitVec spec.exponentBits}
    {w : BitVec spec.mantissaBitsWithoutImplicit} :
    unpackSign (packComponents spec s v w) = s.toBitVec := by
  refine BitVec.eq_of_getLsbD_eq fun i lt ↦ ?_
  obtain rfl : i = 0 := Nat.lt_one_iff.mp lt
  simp [unpackSign, packComponents, BitVec.getLsbD_append, BitVec.getElem_append]

theorem ofBitVec_toBitVec (s : Sign) : Sign.ofBitVec s.toBitVec = s := by
  cases s <;> rfl

theorem unpack_pack_infinity (s : Sign) :
    UnpackedFloat.unpack .binary64 (UnpackedFloat.pack .binary64 (.infinity s)) = .infinity s := by
  cases s <;> rfl

theorem unpack_pack_zero (s : Sign) :
    UnpackedFloat.unpack .binary64 (UnpackedFloat.pack .binary64 (.zero s)) = .zero s := by
  cases s <;> rfl

theorem unpack_normal {s : Sign} {v : BitVec 11} {w : BitVec 52} (finite : v ≠ -1#11)
    (normal : v ≠ 0#11) {m : Nat} {e : Int} (positive : 0 < m)
    (mantissa : 2 ^ 52 + w.toNat = m) (exponent : (v.toNat : Int) - 1075 = e) :
    UnpackedFloat.unpack .binary64 (packComponents .binary64 s v w) = .finite s m e positive := by
  subst exponent mantissa
  simp only [UnpackedFloat.unpack, unpackExponent_packComponents, unpackMantissa_packComponents,
    unpackSign_packComponents, ofBitVec_toBitVec, finite, normal, if_false, toNat_one_append]
  rfl

theorem unpack_subnormal {s : Sign} {w : BitVec 52} {m : Nat} (positive : 0 < m)
    (mantissa : w.toNat = m) :
    UnpackedFloat.unpack .binary64 (packComponents .binary64 s 0#11 w) =
      .finite s m (-1074) positive := by
  subst mantissa
  have exponent : (0#11 : BitVec 11) ≠ -1#11 := by decide
  have nonzero : w ≠ 0#52 := by
    rintro rfl
    exact positive.ne rfl
  simp only [UnpackedFloat.unpack, unpackExponent_packComponents, unpackMantissa_packComponents,
    unpackSign_packComponents, ofBitVec_toBitVec, exponent, nonzero, if_false, if_true, dif_neg,
    not_false_eq_true]
  rfl

theorem log2_add_one_eq {m : Nat} (positive : 0 < m) (small : m < 2 ^ 53) :
    m.log2 + 1 = Format.binary64.mantissaBits ↔ 2 ^ 52 ≤ m := by
  have upper : m.log2 < 53 := (Nat.log2_lt positive.ne').mpr small
  rw [← Nat.le_log2 positive.ne']
  change m.log2 + 1 = 53 ↔ _
  omega

/-- What is packed in its form is unpacked again, unless it is too great. -/
theorem unpack_pack_finite {s : Sign} {m : Nat} {e : Int} {positive : 0 < m}
    (h : Canonical (.finite s m e positive)) :
    UnpackedFloat.unpack .binary64 (UnpackedFloat.pack .binary64 (.finite s m e positive)) =
      if e ≤ 971 then .finite s m e positive else .infinity s := by
  obtain ⟨small, place, form⟩ := h
  have biased : e + Format.binary64.exponentBias + (52 : Nat) = e + 1075 := by
    change e + (1023 : Nat) + (52 : Nat) = _
    omega
  unfold UnpackedFloat.pack
  dsimp only
  rw [biased]
  by_cases fits : e ≤ 971
  · rw [if_pos fits, if_neg (by omega)]
    by_cases normal : 2 ^ 52 ≤ m
    · rw [if_pos ((log2_add_one_eq positive small).mpr normal)]
      have exponent : (BitVec.ofNat 11 (e + 1075).toNat).toNat = (e + 1075).toNat := by
        rw [BitVec.toNat_ofNat, Nat.mod_eq_of_lt (by omega)]
      have mantissa : (BitVec.ofNat 52 m).toNat = m - 2 ^ 52 := by
        rw [BitVec.toNat_ofNat]
        omega
      refine unpack_normal (fun ones ↦ ?_) (fun zero ↦ ?_) positive (by omega) (by omega)
      · have := exponent.symm.trans (congrArg BitVec.toNat ones)
        change _ = 2047 at this
        omega
      · have := exponent.symm.trans (congrArg BitVec.toNat zero)
        change _ = 0 at this
        omega
    · obtain rfl : e = -1074 := form.resolve_left normal
      rw [if_neg fun digits ↦ normal ((log2_add_one_eq positive small).mp digits)]
      refine unpack_subnormal positive ?_
      rw [BitVec.toNat_ofNat, Nat.mod_eq_of_lt (by omega)]
  · rw [if_neg fits, if_pos (by omega)]
    exact unpack_pack_infinity s

/-! ## The order of values -/

/-- Of two positive numbers with their digits in place the one with the lesser exponent is less. -/
theorem mul_zpow_lt_mul_zpow {m m' : Nat} {e e' : Int} (small : m < 2 ^ 53) (place : -1074 ≤ e)
    (form : 2 ^ 52 ≤ m' ∨ e' = -1074) (before : e < e' ∨ e = e' ∧ m < m') :
    (m * 2 ^ e : ℚ) < m' * 2 ^ e' := by
  rcases before with lt | ⟨rfl, lt⟩
  · have digits : 2 ^ 52 ≤ m' := form.resolve_right (by omega)
    calc (m * 2 ^ e : ℚ) < 2 ^ 53 * 2 ^ e :=
          mul_lt_mul_of_pos_right (by exact_mod_cast small) (two_zpow_pos e)
      _ = 2 ^ 52 * 2 ^ (e + 1) := by rw [zpow_add₀ two_ne_zero]; ring
      _ ≤ m' * 2 ^ e' := by
          refine mul_le_mul (by exact_mod_cast digits) ?_ (two_zpow_pos _).le (Nat.cast_nonneg _)
          exact zpow_le_zpow_right₀ one_le_two lt
  · exact mul_lt_mul_of_pos_right (by exact_mod_cast lt) (two_zpow_pos e)

theorem mul_zpow_pos {m : Nat} (positive : 0 < m) (e : Int) : (0 : ℚ) < m * 2 ^ e :=
  mul_pos (Nat.cast_pos.mpr positive) (two_zpow_pos e)

theorem valueOf_negative {m : Nat} {e : Int} (positive : 0 < m) :
    valueOf (.finite .negative m e positive) = -(m * 2 ^ e) := by
  change ((-(m : ℤ) : ℤ) : ℚ) * 2 ^ e = _
  rw [Int.cast_neg, Int.cast_natCast, neg_mul]

theorem valueOf_lt_zero {m : Nat} {e : Int} (positive : 0 < m) :
    valueOf (.finite .negative m e positive) < 0 := by
  rw [valueOf_negative]
  exact neg_lt_zero.mpr (mul_zpow_pos positive e)

theorem zero_lt_valueOf {m : Nat} {e : Int} (positive : 0 < m) :
    0 < valueOf (.finite .positive m e positive) :=
  mul_zpow_pos positive e

theorem compare_mul_zpow {m m' : Nat} {e e' : Int} {positive : 0 < m} {positive' : 0 < m'}
    {s s' : Sign} (h : Canonical (.finite s m e positive))
    (h' : Canonical (.finite s' m' e' positive')) :
    (compare e e').then (compare m m') = compare (m * 2 ^ e : ℚ) (m' * 2 ^ e') := by
  obtain ⟨small, place, form⟩ := h
  obtain ⟨small', place', form'⟩ := h'
  symm
  cases order : (compare e e').then (compare m m') with
  | lt =>
      rw [Ordering.then_eq_lt, Int.compare_eq_lt, Int.compare_eq_eq, Nat.compare_eq_lt] at order
      exact compare_lt_iff_lt.mpr (mul_zpow_lt_mul_zpow small place form' order)
  | eq =>
      rw [Ordering.then_eq_eq, Int.compare_eq_eq, Nat.compare_eq_eq] at order
      rw [order.1, order.2]
      exact compare_eq_iff_eq.mpr rfl
  | gt =>
      rw [Ordering.then_eq_gt, Int.compare_eq_gt, Int.compare_eq_eq, Nat.compare_eq_gt] at order
      refine compare_gt_iff_gt.mpr (mul_zpow_lt_mul_zpow small' place' form ?_)
      exact order.imp_right (And.imp_left Eq.symm)

theorem compare_neg (a b : ℚ) : compare (-a) (-b) = compare b a := by
  rcases lt_trichotomy a b with lt | rfl | gt
  · rw [compare_gt_iff_gt.mpr lt, compare_gt_iff_gt.mpr (neg_lt_neg lt)]
  · rw [compare_eq_iff_eq.mpr rfl, compare_eq_iff_eq.mpr rfl]
  · rw [compare_lt_iff_lt.mpr gt, compare_lt_iff_lt.mpr (neg_lt_neg gt)]

/-- Comparison is comparison of values. -/
theorem compare_eq {u v : UnpackedFloat} (hu : Canonical u) (hv : Canonical v) :
    u.compare v = some (compare (valueOf u) (valueOf v)) := by
  have below {u v : UnpackedFloat} (lt : valueOf u < valueOf v) :
      some .lt = some (compare (valueOf u) (valueOf v)) :=
    congrArg some (compare_lt_iff_lt.mpr lt).symm
  have above {u v : UnpackedFloat} (gt : valueOf v < valueOf u) :
      some .gt = some (compare (valueOf u) (valueOf v)) :=
    congrArg some (compare_gt_iff_gt.mpr gt).symm
  cases u with
  | infinity | notANumber => cases hu
  | zero s =>
      cases v with
      | infinity | notANumber => cases hv
      | zero s' => exact congrArg some (compare_eq_iff_eq.mpr rfl).symm
      | finite s' m' e' positive' =>
          cases s'
          · exact above (valueOf_lt_zero positive')
          · exact below (zero_lt_valueOf positive')
  | finite s m e positive =>
      cases v with
      | infinity | notANumber => cases hv
      | zero s' =>
          cases s
          · exact below (valueOf_lt_zero positive)
          · exact above (zero_lt_valueOf positive)
      | finite s' m' e' positive' =>
          cases s <;> cases s'
          · change some ((compare e e').then (compare m m')).swap = _
            rw [Ordering.swap_then, Int.compare_swap, Nat.compare_swap, compare_mul_zpow hv hu,
              valueOf_negative, valueOf_negative, compare_neg]
          · exact below ((valueOf_lt_zero positive).trans (zero_lt_valueOf positive'))
          · exact above ((valueOf_lt_zero positive').trans (zero_lt_valueOf positive))
          · exact congrArg some (compare_mul_zpow hu hv)

/-- A finite number with its digits in place is a double unless it is too great. -/
theorem abs_valueOf_lt_iff {s : Sign} {m : Nat} {e : Int} {positive : 0 < m}
    (h : Canonical (.finite s m e positive)) :
    |valueOf (.finite s m e positive)| < 2 ^ (1024 : ℤ) ↔ e ≤ 971 := by
  obtain ⟨small, place, form⟩ := h
  have abs : |valueOf (.finite s m e positive)| = m * 2 ^ e := by
    cases s
    · rw [valueOf_negative, abs_neg, abs_of_pos (mul_zpow_pos positive e)]
    · exact abs_of_pos (mul_zpow_pos positive e)
  have limit : (2 : ℚ) ^ (1024 : ℤ) = (2 ^ 52 : ℕ) * 2 ^ (972 : ℤ) := by
    rw [Nat.cast_pow, Nat.cast_ofNat, ← zpow_natCast, ← zpow_add₀ two_ne_zero]
    rfl
  rw [abs, limit]
  constructor
  · intro lt
    by_contra above
    have digits : 2 ^ 52 ≤ m := form.resolve_right (by omega)
    refine lt.not_ge
      (mul_le_mul (by exact_mod_cast digits) ?_ (two_zpow_pos _).le (Nat.cast_nonneg _))
    exact zpow_le_zpow_right₀ one_le_two (by omega)
  · intro le
    exact mul_zpow_lt_mul_zpow small place (.inl le_rfl) (.inl (by omega))

/-! ## Values of doubles -/

/-- The number that a finite double stands for. -/
def value (x : Float) : ℚ := valueOf x.toModel.unpack

theorem canonical_of_isFinite {x : Float} (finite : Arith.isFinite x) :
    Canonical x.toModel.unpack :=
  canonical_unpack finite

theorem representable_value {x : Float} (finite : Arith.isFinite x) : Representable (value x) :=
  representable_valueOf (canonical_of_isFinite finite)

variable {x y : Float}

/-- Finite doubles are in the order of the numbers they stand for. -/
theorem le_iff_value (finiteX : Arith.isFinite x) (finiteY : Arith.isFinite y) :
    Arith.le x y ↔ value x ≤ value y := by
  rw [le_iff_unpack, UnpackedFloat.le,
    compare_eq (canonical_of_isFinite finiteX) (canonical_of_isFinite finiteY)]
  exact Std.LawfulBCmp.isLE_iff_le

theorem lt_iff_value (finiteX : Arith.isFinite x) (finiteY : Arith.isFinite y) :
    Arith.lt x y ↔ value x < value y := by
  rw [lt_iff_unpack, UnpackedFloat.lt,
    compare_eq (canonical_of_isFinite finiteX) (canonical_of_isFinite finiteY), beq_iff_eq,
    Option.some_inj]
  exact compare_lt_iff_lt

theorem eq_iff_value (finiteX : Arith.isFinite x) (finiteY : Arith.isFinite y) :
    Arith.eq x y ↔ value x = value y := by
  change x.toModel.unpack.beq y.toModel.unpack ↔ _
  rw [UnpackedFloat.beq,
    compare_eq (canonical_of_isFinite finiteX) (canonical_of_isFinite finiteY), beq_iff_eq,
    Option.some_inj]
  exact compare_eq_iff_eq
end ScalarSolve.Double
