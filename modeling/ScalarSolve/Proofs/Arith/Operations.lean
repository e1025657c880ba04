import ScalarSolve.Proofs.Arith.Double
import ScalarSolve.Proofs.Arith.Value

/-!
# Arithmetic of doubles is exact arithmetic, rounded

Sums, differences and products of finite doubles are the exact ones of the numbers they stand for,
rounded; they are infinite if that is too great.  What the operations have in common is the rounding
of a positive mantissa.  It is shifted to its last place one digit at a time, with two bits kept for
what has been shifted out, and these bits say on which side of the middle between two integers the
number is.
-/

namespace ScalarSolve.Double

open Float.Model Float.Model.UnpackedFloat

/-! ## Digits behind the last one -/

/-- A mantissa and two more bits tell where a number is.  The first one says whether it is at the
mantissa or halfway to the next one, and the second one whether it is not quite there but less than
a half behind that. -/
def Describes (x : ℚ) (em : ExtendedMantissa) : Prop :=
  if em.stickyBit then
    em.mantissa + em.roundBit.toNat / 2 < x ∧ x < em.mantissa + em.roundBit.toNat / 2 + 1 / 2
  else x = em.mantissa + em.roundBit.toNat / 2

variable {x : ℚ} {em : ExtendedMantissa} {m : Nat} {accuracy : Accuracy}

theorem describes_exact (m : Nat) :
    Describes m (ExtendedMantissa.ofMantissaAndAccuracy m .exact) := by
  change (m : ℚ) = m + (0 : ℕ) / 2
  norm_num

theorem Describes.between (h : Describes x (.ofMantissaAndAccuracy m accuracy)) :
    m ≤ x ∧ x < m + 1 := by
  rcases accuracy with _ | (_ | _ | _) <;>
    norm_num [Describes, ExtendedMantissa.ofMantissaAndAccuracy] at h <;> constructor <;> linarith

/-- The mantissa is rounded to the nearest integer. -/
theorem Describes.roundedMantissa (h : Describes x em) :
    (em.roundedMantissa : ℤ) = nearestInt x := by
  obtain ⟨m, half, rest⟩ := em
  obtain ⟨r, rfl⟩ : ∃ r : ℚ, x = (m : ℤ) + r := ⟨x - m, by push_cast; ring⟩
  cases half <;> cases rest <;> norm_num [Describes] at h
  · rw [nearestInt_add (by linarith) (by linarith), if_pos (by linarith)]
    rfl
  · rw [nearestInt_add (by linarith) (by linarith), if_pos (by linarith)]
    rfl
  · rw [nearestInt_add (by linarith) (by linarith), if_neg (by linarith), if_neg (by linarith)]
    rfl
  · rw [nearestInt_add (by linarith) (by linarith), if_neg (by linarith), if_pos (by linarith)]
    rfl

/-- What is shifted out of the mantissa is the first of the new bits. -/
theorem div_add_mod (m : Nat) : ((m / 2 : ℕ) + (m % 2 != 0).toNat / 2 : ℚ) = m / 2 := by
  have bit : (m % 2 != 0).toNat = m % 2 := by
    rcases Nat.mod_two_eq_zero_or_one m with even | odd
    · rw [even]
      rfl
    · rw [odd]
      rfl
  have parts : (2 * (m / 2 : ℕ) + (m % 2 : ℕ) : ℚ) = m := by exact_mod_cast Nat.div_add_mod m 2
  rw [bit]
  linarith

theorem Describes.shiftRightOne (h : Describes x em) : Describes (x / 2) em.shiftRightOne := by
  obtain ⟨m, half, rest⟩ := em
  unfold Describes ExtendedMantissa.shiftRightOne
  rw [div_add_mod]
  cases half <;> cases rest <;> norm_num [Describes] at h ⊢
  · linarith
  · constructor <;> linarith
  · constructor <;> linarith
  · constructor <;> linarith

theorem Describes.shiftRight (h : Describes x em) (n : Nat) : Describes (x / 2 ^ n) (em >>> n) := by
  change Describes _ (n.repeat ExtendedMantissa.shiftRightOne em)
  induction n with
  | zero => rwa [pow_zero, div_one]
  | succ n ih =>
      rw [pow_succ, ← div_div]
      exact ih.shiftRightOne

/-! ## Rounding of unpacked doubles -/

/-- A number between a mantissa and the next one has as many digits as the mantissa. -/
theorem log_mul_zpow {m : Nat} (positive : 0 < m) (low : m ≤ x) (high : x < m + 1) (e : Int) :
    Int.log 2 |x * 2 ^ e| = m.log2 + e := by
  have pos : 0 < x * 2 ^ e := mul_pos ((Nat.cast_pos.mpr positive).trans_le low) (two_zpow_pos e)
  have pow (k : Nat) : (2 : ℚ) ^ (k + e) = (2 ^ k : ℕ) * 2 ^ e := by
    rw [zpow_add₀ two_ne_zero, zpow_natCast, Nat.cast_pow, Nat.cast_ofNat]
  rw [abs_of_pos pos]
  refine le_antisymm (Int.lt_add_one_iff.mp ?_) ?_
  · rw [← Int.lt_zpow_iff_log_lt one_lt_two pos]
    have next : (m.log2 + e + 1 : ℤ) = (m.log2 + 1 : ℕ) + e := by
      push_cast
      ring
    have digits : (m + 1 : ℚ) ≤ (2 ^ (m.log2 + 1) : ℕ) := by exact_mod_cast Nat.lt_log2_self
    rw [Nat.cast_ofNat, next, pow]
    exact mul_lt_mul_of_pos_right (high.trans_le digits) (two_zpow_pos e)
  · rw [← Int.zpow_le_iff_le_log one_lt_two pos, Nat.cast_ofNat, pow]
    have digits : ((2 ^ m.log2 : ℕ) : ℚ) ≤ m := by exact_mod_cast Nat.log2_self_le positive.ne'
    exact mul_le_mul_of_nonneg_right (digits.trans low) (two_zpow_pos e).le

/-- The exponent that a number should have is its last place. -/
theorem targetExponent_eq {m : Nat} (positive : 0 < m) (low : m ≤ x) (high : x < m + 1) (e : Int) :
    Format.binary64.targetExponent (totalExponent m e) = lastPlace (x * 2 ^ e) := by
  rw [lastPlace, log_mul_zpow positive low high]
  change max ((m.log2 : Int) + 1 + e - (53 : Nat)) (-1074) = _
  congr 1
  omega

/-- This holds of a number without digits before the point too, if it is not to have any. -/
theorem targetExponent_of_le {m : Nat} (positive : 0 < x) (low : m ≤ x) (high : x < m + 1) {e : Int}
    (le : e ≤ lastPlace (x * 2 ^ e)) :
    Format.binary64.targetExponent (totalExponent m e) = lastPlace (x * 2 ^ e) := by
  rcases m.eq_zero_or_pos with rfl | digits
  · have pos := mul_pos positive (two_zpow_pos e)
    have small : x * 2 ^ e < 2 ^ e :=
      mul_lt_of_lt_one_left (two_zpow_pos e) (by rwa [Nat.cast_zero, zero_add] at high)
    have log : Int.log 2 (x * 2 ^ e) < e := (Int.lt_zpow_iff_log_lt one_lt_two pos).mp small
    change max ((0 : Int) + 1 + e - (53 : Nat)) (-1074) = _
    unfold lastPlace at le ⊢
    rw [abs_of_pos pos] at le ⊢
    omega
  · exact targetExponent_eq digits low high e

theorem shiftToExponent_of_le {m : Nat} {accuracy : Accuracy}
    (h : Describes x (.ofMantissaAndAccuracy m accuracy)) {e t : Int} (le : e ≤ t) :
    ∃ em, shiftToExponent m e accuracy t = (em, t) ∧ Describes (x * 2 ^ e / 2 ^ t) em := by
  obtain ⟨k, rfl⟩ : ∃ k : ℕ, t = e + k := ⟨(t - e).toNat, by omega⟩
  have shift : (e + k - e).toNat = k := by omega
  have scale : x * 2 ^ e / 2 ^ (e + k) = x / 2 ^ k := by
    rw [zpow_add₀ two_ne_zero, zpow_natCast, mul_comm x, mul_div_mul_left _ _ (two_zpow_pos e).ne']
  unfold shiftToExponent
  dsimp only
  rw [shift, scale]
  exact ⟨_, rfl, h.shiftRight k⟩

/-- A mantissa in range is left alone. -/
theorem shiftToTargetExponent_of_lt {n : Nat} {t : Int} (small : n < 2 ^ 53) (place : -1074 ≤ t) :
    shiftToTargetExponent .binary64 n t .exact = (⟨n, false, false⟩, t) := by
  have digits : n.log2 < 53 := by
    rcases n.eq_zero_or_pos with rfl | positive
    · decide
    · exact (Nat.log2_lt positive.ne').mpr small
  have target : Format.binary64.targetExponent (totalExponent n t) ≤ t := by
    change max ((n.log2 : Int) + 1 + t - (53 : Nat)) (-1074) ≤ t
    omega
  have shift : (Format.binary64.targetExponent (totalExponent n t) - t).toNat = 0 := by omega
  unfold shiftToTargetExponent shiftToExponent
  dsimp only
  rw [shift]
  exact congrArg _ (Int.add_zero t)

/-- A mantissa that has got one digit too many loses a zero. -/
theorem shiftToTargetExponent_carry {t : Int} (place : -1074 ≤ t) :
    shiftToTargetExponent .binary64 (2 ^ 53) t .exact = (⟨2 ^ 52, false, false⟩, t + 1) := by
  have target : Format.binary64.targetExponent (totalExponent (2 ^ 53) t) = t + 1 := by
    change max (((2 ^ 53 : Nat).log2 : Int) + 1 + t - (53 : Nat)) (-1074) = t + 1
    rw [Nat.log2_two_pow]
    omega
  have shift : (t + 1 - t).toNat = 1 := by omega
  unfold shiftToTargetExponent shiftToExponent
  dsimp only
  rw [target, shift]
  rfl

/-- This unpacked double has its digits in place, and it is the number rounded. -/
structure Rounds (q : ℚ) (u : UnpackedFloat) : Prop where
  canonical : Canonical u
  value : valueOf u = round q

theorem rounds_of_form {s : Sign} {n : Nat} {t : Int} {q : ℚ} (small : n < 2 ^ 53)
    (place : -1074 ≤ t) (form : 2 ^ 52 ≤ n ∨ t = -1074) (value : s.apply n * 2 ^ t = round q) :
    Rounds q (if h : n = 0 then .zero s else .finite s n t (Nat.pos_of_ne_zero h)) := by
  split
  · next zero =>
      subst zero
      refine ⟨trivial, ?_⟩
      rw [← value]
      cases s <;> exact (zero_mul _).symm
  · exact ⟨⟨small, place, form⟩, value⟩

theorem cast_apply (s : Sign) (n : Nat) : (s.apply n : ℚ) = s.apply 1 * n := by
  cases s
  · change ((-(n : ℤ) : ℤ) : ℚ) = (-1 : ℤ) * n
    push_cast
    ring
  · exact (one_mul _).symm

theorem round_sign_mul (s : Sign) (q : ℚ) : round (s.apply 1 * q) = s.apply 1 * round q := by
  cases s
  · change round ((-1 : ℤ) * q) = (-1 : ℤ) * round q
    rw [Int.cast_neg, Int.cast_one, neg_one_mul, neg_one_mul, round_neg]
  · change round ((1 : ℤ) * q) = (1 : ℤ) * round q
    rw [Int.cast_one, one_mul, one_mul]

theorem apply_mul_eq_round {s : Sign} {q : ℚ} {n : Nat} {t : Int} (value : n * 2 ^ t = round q) :
    s.apply n * 2 ^ t = round (s.apply 1 * q) := by
  rw [cast_apply s n, mul_assoc, round_sign_mul, value]

/-- A positive number is rounded if it is described with enough digits. -/
theorem rounds_roundWithAccuracy (s : Sign) (positive : 0 < x) {m : Nat} {accuracy : Accuracy}
    (h : Describes x (.ofMantissaAndAccuracy m accuracy)) {e : Int}
    (le : e ≤ lastPlace (x * 2 ^ e)) :
    Rounds (s.apply 1 * (x * 2 ^ e)) (roundWithAccuracy .binary64 s m e accuracy) := by
  obtain ⟨low, high⟩ := h.between
  have pos := mul_pos positive (two_zpow_pos e)
  have target := targetExponent_of_le positive low high le
  obtain ⟨em, shifted, describes⟩ := shiftToExponent_of_le h le
  have place : -1074 ≤ lastPlace (x * 2 ^ e) := le_max_right _ _
  unfold roundWithAccuracy
  rw [shiftToTargetExponent, target, shifted]
  obtain ⟨q, eq⟩ : ∃ q : ℚ, q = x * 2 ^ e := ⟨_, rfl⟩
  rw [← eq] at pos describes place ⊢
  have digits := Describes.roundedMantissa describes
  have value : em.roundedMantissa * 2 ^ lastPlace q = round q := by
    rw [round, ← digits, Int.cast_natCast]
  have form := le_nearestInt_div pos
  have bound := (le_abs_self _).trans (abs_nearestInt_le q)
  rw [← digits] at form bound
  dsimp only
  rcases lt_or_eq_of_le bound with lt | carried
  · rw [shiftToTargetExponent_of_lt (by exact_mod_cast lt) place]
    exact rounds_of_form (by exact_mod_cast lt) place (form.imp_left (by exact_mod_cast ·))
      (apply_mul_eq_round value)
  · -- All 53 digits were ones, and rounding up has carried them over into a 54th.
    have carried : em.roundedMantissa = 2 ^ 53 := by exact_mod_cast carried
    rw [carried] at value ⊢
    rw [shiftToTargetExponent_carry place]
    refine rounds_of_form (by norm_num) (by omega) (.inl le_rfl) (apply_mul_eq_round ?_)
    rw [← value, zpow_add₀ two_ne_zero]
    push_cast
    ring

/-- A positive mantissa with enough digits is rounded. -/
theorem rounds_of_exact (s : Sign) {m : Nat} (positive : 0 < m) {e : Int}
    (le : e ≤ lastPlace (m * 2 ^ e)) :
    Rounds (s.apply m * 2 ^ e) (roundWithAccuracy .binary64 s m e .exact) := by
  rw [cast_apply s m, mul_assoc]
  exact rounds_roundWithAccuracy s (Nat.cast_pos.mpr positive) (describes_exact m) le

theorem decreaseExponent_eq (m : Nat) (e t : Int) :
    ((decreaseExponent m e t).1 * 2 ^ (decreaseExponent m e t).2 : ℚ) = m * 2 ^ e := by
  unfold decreaseExponent
  dsimp only
  rw [Nat.shiftLeft_eq, Nat.cast_mul, Nat.cast_pow, Nat.cast_ofNat, mul_assoc, ← zpow_natCast,
    ← zpow_add₀ two_ne_zero, add_sub_cancel]

theorem apply_mul_zpow (s : Sign) {m m' : Nat} {e e' : Int} (eq : (m * 2 ^ e : ℚ) = m' * 2 ^ e') :
    (s.apply m * 2 ^ e : ℚ) = s.apply m' * 2 ^ e' := by
  rw [cast_apply s m, cast_apply s m', mul_assoc, mul_assoc, eq]

theorem rounds_round (s : Sign) {m : Nat} (positive : 0 < m) (e : Int) :
    Rounds (s.apply m * 2 ^ e) (UnpackedFloat.round .binary64 s m e) := by
  unfold UnpackedFloat.round
  dsimp only
  rw [targetExponent_eq positive le_rfl (lt_add_one _)]
  have eq := decreaseExponent_eq m e (lastPlace (m * 2 ^ e))
  rw [← apply_mul_zpow s eq]
  refine rounds_of_exact s ?_ ?_
  · unfold decreaseExponent
    dsimp only
    rw [Nat.shiftLeft_eq]
    exact Nat.mul_pos positive (Nat.two_pow_pos _)
  · rw [eq]
    unfold decreaseExponent
    dsimp only
    omega

theorem rounds_zero (s : Sign) : Rounds 0 (.zero s) := ⟨trivial, round_zero.symm⟩

theorem rounds_normalize (m e : Int) (s : Sign) :
    Rounds (m * 2 ^ e) (UnpackedFloat.normalize .binary64 m e s) := by
  unfold UnpackedFloat.normalize
  rcases lt_trichotomy m 0 with lt | rfl | gt
  · rw [Int.compare_eq_lt.mpr lt]
    have rounds := rounds_round .negative (m := (-m).toNat) (by omega) e
    have cast : Sign.negative.apply (-m).toNat = m := by
      change -((-m).toNat : ℤ) = m
      omega
    rwa [cast] at rounds
  · rw [Int.cast_zero, zero_mul]
    exact rounds_zero s
  · rw [Int.compare_eq_gt.mpr gt]
    have rounds := rounds_round .positive (m := m.toNat) (by omega) e
    have cast : Sign.positive.apply m.toNat = m := Int.toNat_of_nonneg gt.le
    rwa [cast] at rounds

/-! ## Operations on unpacked doubles -/

variable {u v : UnpackedFloat}

theorem rounds_of_canonical (h : Canonical u) : Rounds (valueOf u) u :=
  ⟨h, (round_of_representable (representable_valueOf h)).symm⟩

theorem apply_decreaseExponent (s : Sign) (m : Nat) {e t : Int} (le : t ≤ e) :
    (s.apply (decreaseExponent m e t).1 * 2 ^ t : ℚ) = s.apply m * 2 ^ e := by
  have exponent : (decreaseExponent m e t).2 = t := by
    unfold decreaseExponent
    dsimp only
    omega
  have eq := decreaseExponent_eq m e t
  rw [exponent] at eq
  exact apply_mul_zpow s eq

/-- A sum is the exact sum rounded. -/
theorem rounds_add (hu : Canonical u) (hv : Canonical v) :
    Rounds (valueOf u + valueOf v) (UnpackedFloat.add .binary64 u v) := by
  cases u with
  | infinity | notANumber => cases hu
  | zero s =>
      cases v with
      | infinity | notANumber => cases hv
      | zero s' =>
          change Rounds (0 + 0) (if s == s' then .zero s else .zero .positive)
          rw [zero_add, ← apply_ite]
          exact rounds_zero _
      | finite s' m' e' positive' =>
          change Rounds (0 + _) _
          rw [zero_add]
          exact rounds_of_canonical hv
  | finite s m e positive =>
      cases v with
      | infinity | notANumber => cases hv
      | zero s' =>
          change Rounds (_ + 0) _
          rw [add_zero]
          exact rounds_of_canonical hu
      | finite s' m' e' positive' =>
          have rounds := rounds_normalize (s.apply (decreaseExponent m e (min e e')).1 +
            s'.apply (decreaseExponent m' e' (min e e')).1) (min e e') .positive
          rwa [Int.cast_add, add_mul, apply_decreaseExponent s m (min_le_left e e'),
            apply_decreaseExponent s' m' (min_le_right e e')] at rounds

theorem canonical_neg (h : Canonical u) : Canonical u.neg := by
  cases u with
  | infinity | notANumber => cases h
  | zero s => trivial
  | finite s m e positive => exact h

theorem valueOf_neg (u : UnpackedFloat) : valueOf u.neg = -valueOf u := by
  cases u with
  | infinity | notANumber | zero => exact neg_zero.symm
  | finite s m e positive =>
      cases s
      · rw [valueOf_negative, neg_neg]
        rfl
      · exact valueOf_negative positive

theorem sub_apply (n k : Int) (s : Sign) : n - s.apply k = n + (-s).apply k := by
  cases s
  · exact Int.sub_neg n k
  · exact Int.sub_eq_add_neg

/-- Subtraction is addition of the negative. -/
theorem sub_eq_add (u v : UnpackedFloat) :
    UnpackedFloat.sub .binary64 u v = UnpackedFloat.add .binary64 u v.neg := by
  cases u with
  | notANumber | infinity | zero => cases v <;> rfl
  | finite s m e positive =>
      cases v with
      | notANumber | infinity | zero => rfl
      | finite s' m' e' positive' =>
          exact congrArg (UnpackedFloat.normalize .binary64 · (min e e') .positive)
            (sub_apply _ _ s')

/-- A difference is the exact difference rounded. -/
theorem rounds_sub (hu : Canonical u) (hv : Canonical v) :
    Rounds (valueOf u - valueOf v) (UnpackedFloat.sub .binary64 u v) := by
  have rounds := rounds_add hu (canonical_neg hv)
  rwa [valueOf_neg, ← sub_eq_add, ← sub_eq_add_neg] at rounds

theorem le_lastPlace_mul {s s' : Sign} {m m' : Nat} {e e' : Int} {positive : 0 < m}
    {positive' : 0 < m'} (h : Canonical (.finite s m e positive))
    (h' : Canonical (.finite s' m' e' positive')) :
    e + e' ≤ lastPlace ((m * m' : Nat) * 2 ^ (e + e')) := by
  have pos : 0 < m * m' := Nat.mul_pos positive positive'
  rw [lastPlace, log_mul_zpow pos le_rfl (lt_add_one _)]
  obtain ⟨-, place, form⟩ := h
  obtain ⟨-, place', form'⟩ := h'
  by_cases digits : 2 ^ 52 ≤ m * m'
  · have log := (Nat.le_log2 pos.ne').mpr digits
    omega
  · have few : ¬ 2 ^ 52 ≤ m := fun le ↦ digits (le.trans (Nat.le_mul_of_pos_right m positive'))
    have least := form.resolve_left few
    have few' : ¬ 2 ^ 52 ≤ m' := fun le ↦ digits (le.trans (Nat.le_mul_of_pos_left m' positive))
    have least' := form'.resolve_left few'
    omega

theorem apply_mul (s s' : Sign) (m m' : Nat) :
    (s * s').apply (m * m' : Nat) = s.apply m * s'.apply m' := by
  rw [Nat.cast_mul]
  cases s <;> cases s'
  · exact (neg_mul_neg _ _).symm
  · exact (neg_mul _ _).symm
  · exact (mul_neg _ _).symm
  · rfl

theorem rounds_mul (hu : Canonical u) (hv : Canonical v) :
    Rounds (valueOf u * valueOf v) (UnpackedFloat.mul .binary64 u v) := by
  cases u with
  | infinity | notANumber => cases hu
  | zero s =>
      cases v with
      | infinity | notANumber => cases hv
      | zero | finite =>
          change Rounds (0 * _) (.zero _)
          rw [zero_mul]
          exact rounds_zero _
  | finite s m e positive =>
      cases v with
      | infinity | notANumber => cases hv
      | zero s' =>
          change Rounds (_ * 0) (.zero _)
          rw [mul_zero]
          exact rounds_zero _
      | finite s' m' e' positive' =>
          have rounds := rounds_of_exact (s * s') (Nat.mul_pos positive positive')
            (le_lastPlace_mul hu hv)
          rw [apply_mul, zpow_add₀ two_ne_zero, Int.cast_mul, mul_mul_mul_comm] at rounds
          exact rounds

/-! ## Operations on doubles -/

theorem unpack_pack_of_lt (h : Canonical u) (lt : |valueOf u| < 2 ^ (1024 : ℤ)) :
    UnpackedFloat.unpack .binary64 (UnpackedFloat.pack .binary64 u) = u := by
  cases u with
  | infinity | notANumber => cases h
  | zero s => exact unpack_pack_zero s
  | finite s m e positive => rw [unpack_pack_finite h, if_pos ((abs_valueOf_lt_iff h).mp lt)]

theorem unpack_pack_of_le (h : Canonical u) (le : 2 ^ (1024 : ℤ) ≤ |valueOf u|) :
    ∃ s, UnpackedFloat.unpack .binary64 (UnpackedFloat.pack .binary64 u) = .infinity s := by
  cases u with
  | infinity | notANumber => cases h
  | zero s =>
      rw [show valueOf (.zero s) = 0 from rfl, abs_zero] at le
      exact absurd le (two_zpow_pos _).not_ge
  | finite s m e positive =>
      rw [unpack_pack_finite h, if_neg fun fits ↦ le.not_gt ((abs_valueOf_lt_iff h).mpr fits)]
      exact ⟨s, rfl⟩

/-- This double is a number rounded, or infinite if that is too great. -/
structure IsRounded (q : ℚ) (z : Float) : Prop where
  finite_iff : Arith.isFinite z ↔ |round q| < 2 ^ (1024 : ℤ)
  value : Arith.isFinite z → value z = round q
  infinite : ¬ Arith.isFinite z → ∃ s, z.toModel.unpack = .infinity s

theorem Rounds.isRounded {q : ℚ} {z : Float} (h : Rounds q u)
    (packed : z.toModel.unpack = UnpackedFloat.unpack .binary64 (UnpackedFloat.pack .binary64 u)) :
    IsRounded q z := by
  rcases lt_or_ge |round q| (2 ^ (1024 : ℤ)) with lt | le
  · have unpacked : z.toModel.unpack = u :=
      packed.trans (unpack_pack_of_lt h.canonical (h.value.symm ▸ lt))
    have finite : Arith.isFinite z := by
      change z.toModel.unpack.isFinite
      rw [unpacked]
      exact isFinite_of_canonical h.canonical
    refine ⟨iff_of_true finite lt, fun _ ↦ ?_, fun infinite ↦ absurd finite infinite⟩
    rw [Double.value, unpacked, h.value]
  · obtain ⟨s, unpacked⟩ := unpack_pack_of_le h.canonical (h.value.symm ▸ le)
    rw [← packed] at unpacked
    have infinite : ¬ Arith.isFinite z := by
      change ¬ z.toModel.unpack.isFinite
      rw [unpacked]
      exact Bool.false_ne_true
    exact ⟨iff_of_false infinite le.not_gt, fun finite ↦ absurd finite infinite,
      fun _ ↦ ⟨s, unpacked⟩⟩

variable {x y : Float}

theorem abs_value_lt (finite : Arith.isFinite x) : |value x| < 2 ^ (1024 : ℤ) := by
  have canonical := canonical_of_isFinite finite
  unfold value
  cases unpacked : x.toModel.unpack with
  | infinity | notANumber | zero =>
      rw [valueOf, abs_zero]
      exact two_zpow_pos 1024
  | finite s m e positive =>
      rw [unpacked] at canonical
      have exponent := exponent_lt_of_unpack unpacked
      exact (abs_valueOf_lt_iff canonical).mpr (by omega)

/-- A number between two finite doubles is rounded to one between them. -/
theorem between_of_isRounded {q : ℚ} {z : Float} (h : IsRounded q z) (finiteX : Arith.isFinite x)
    (finiteY : Arith.isFinite y) (low : value x ≤ q) (high : q ≤ value y) :
    Arith.le x z ∧ Arith.le z y := by
  have low := le_round (representable_value finiteX) low
  have high := round_le (representable_value finiteY) high
  have finite : Arith.isFinite z := by
    rw [h.finite_iff, abs_lt]
    exact ⟨(abs_lt.mp (abs_value_lt finiteX)).1.trans_le low,
      high.trans_lt (abs_lt.mp (abs_value_lt finiteY)).2⟩
  rw [← h.value finite] at low high
  exact ⟨(le_iff_value finiteX finite).mpr low, (le_iff_value finite finiteY).mpr high⟩

theorem isRounded_add (finiteX : Arith.isFinite x) (finiteY : Arith.isFinite y) :
    IsRounded (value x + value y) (x + y) :=
  (rounds_add (canonical_of_isFinite finiteX) (canonical_of_isFinite finiteY)).isRounded rfl

theorem isRounded_sub (finiteX : Arith.isFinite x) (finiteY : Arith.isFinite y) :
    IsRounded (value x - value y) (x - y) :=
  (rounds_sub (canonical_of_isFinite finiteX) (canonical_of_isFinite finiteY)).isRounded rfl

theorem isRounded_mul (finiteX : Arith.isFinite x) (finiteY : Arith.isFinite y) :
    IsRounded (value x * value y) (x * y) :=
  (rounds_mul (canonical_of_isFinite finiteX) (canonical_of_isFinite finiteY)).isRounded rfl

/-- What is added to an infinity does not matter. -/
theorem unpack_add_infinity {s : Sign} (finite : Arith.isFinite x)
    (infinite : y.toModel.unpack = .infinity s) : (x + y).toModel.unpack = .infinity s := by
  change UnpackedFloat.unpack .binary64 (UnpackedFloat.pack .binary64
    (UnpackedFloat.add .binary64 x.toModel.unpack y.toModel.unpack)) = _
  have finite : x.toModel.unpack.isFinite := finite
  rw [infinite]
  cases unpacked : x.toModel.unpack with
  | infinity | notANumber =>
      rw [unpacked] at finite
      cases finite
  | zero | finite => exact unpack_pack_infinity s

end ScalarSolve.Double
