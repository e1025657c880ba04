import Mathlib
import ScalarSolve.Arith.Double

/-!
# The sign of a double

There are two ways to ask for the sign of a double: whether it is less than zero, and what its sign
bit says.  They agree on all numbers but the zeros, which have a sign bit too.  What is not a number
has no sign, and it is different from whatever it is compared with.
-/

namespace ScalarSolve.Double

open Float.Model Float.Model.UnpackedFloat

/-! ## The sign bit -/

/-- The sign of an unpacked double, unless it is not a number. -/
def sign? : UnpackedFloat → Option Sign
  | .notANumber => none
  | .infinity s | .zero s | .finite s _ _ _ => some s

/-- The sign bit of a pattern. -/
def signBit (b : BitVec Format.binary64.numBits) : Sign := Sign.ofBitVec (unpackSign b)

theorem sign?_unpack {b : BitVec Format.binary64.numBits} {s : Sign}
    (h : sign? (UnpackedFloat.unpack .binary64 b) = some s) : signBit b = s := by
  unfold UnpackedFloat.unpack at h
  dsimp only at h
  split at h
  · split at h
    · exact Option.some.inj h
    · cases h
  · split at h
    · split at h <;> exact Option.some.inj h
    · exact Option.some.inj h

/-- The sign bit is the first one. -/
theorem first_bit_iff (x : Float) :
    x.toBits >>> 63 == 1 ↔ signBit x.toModel.toBits.toBitVec = .negative := by
  have range : x.toModel.toBits.toNat < 2 ^ 64 := x.toModel.toBits.toNat_lt
  have bit : (@unpackSign .binary64 x.toModel.toBits.toBitVec).toNat =
      x.toModel.toBits.toNat / 2 ^ 63 % 2 := by
    unfold unpackSign
    simp [Format.binary64, BitVec.extractLsb_toNat, Nat.shiftRight_eq_div_pow]
  have shifted : (x.toBits >>> 63).toNat = x.toModel.toBits.toNat / 2 ^ 63 := by
    change (x.toModel.toBits >>> 63).toNat = _
    simp [UInt64.toNat_shiftRight, Nat.shiftRight_eq_div_pow]
  rw [beq_iff_eq, ← UInt64.toNat_inj, shifted, signBit, Sign.ofBitVec]
  split
  · next zero =>
      rw [← BitVec.toNat_inj, bit] at zero
      simp at zero ⊢
      omega
  · next one =>
      rw [← BitVec.toNat_inj, bit] at one
      simp at one ⊢
      omega

/-! ## Comparison with zero -/

theorem unpack_zero : (Arith.zero : Float).toModel.unpack = .zero .positive := rfl

theorem isNegative_eq (x : Float) :
    Arith.isNegative x = x.toModel.unpack.lt (.zero .positive) := by
  rw [← unpack_zero]
  change decide (decide _ = true) = _
  rw [Bool.decide_eq_true]
  exact Bool.decide_eq_true

theorem isZero_eq (x : Float) : Arith.isZero x = x.toModel.unpack.beq (.zero .positive) := by
  rw [← unpack_zero]
  rfl

/-- A number other than zero has a sign, and it is less than zero if that is negative. -/
theorem sign?_of_ne_zero {u : UnpackedFloat} (number : u.isNaN = false)
    (nonzero : u.beq (.zero .positive) = false) :
    sign? u = some (if u.lt (.zero .positive) then .negative else .positive) := by
  cases u with
  | notANumber => cases number
  | zero s => cases nonzero
  | infinity s => cases s <;> rfl
  | finite s m e positive => cases s <;> rfl

/-- The sign of a number other than zero is what comparison with zero says. -/
theorem signum_eq {x : Float} (number : x.isNaN = false) (nonzero : Arith.isZero x = false) :
    Arith.signum x = if Arith.isNegative x then -1 else 1 := by
  rw [isZero_eq] at nonzero
  have sign : signBit x.toModel.toBits.toBitVec =
      if x.toModel.unpack.lt (.zero .positive) then .negative else .positive :=
    sign?_unpack (sign?_of_ne_zero number nonzero)
  have bit : (x.toBits >>> 63 == 1) = x.toModel.unpack.lt (.zero .positive) := by
    rw [Bool.eq_iff_iff, first_bit_iff, sign]
    cases x.toModel.unpack.lt (.zero .positive) <;> simp
  change Double.signum x = _
  rw [Double.signum, number, isNegative_eq, bit]
  exact if_neg Bool.false_ne_true

/-- What is not a number differs from everything. -/
theorem eq_of_isNaN {x : Float} (h : x.isNaN) (y : Float) :
    Arith.eq x y = false ∧ Arith.eq y x = false := by
  change x.toModel.unpack.beq y.toModel.unpack = false ∧
    y.toModel.unpack.beq x.toModel.unpack = false
  have u : x.toModel.unpack = .notANumber := by
    change x.toModel.unpack.isNaN at h
    cases u : x.toModel.unpack <;> simp_all [UnpackedFloat.isNaN]
  rw [u]
  cases y.toModel.unpack <;> exact ⟨rfl, rfl⟩

/-- Numbers on different sides of zero have different signs, and so has what is not a number. -/
theorem signum_ne_signum {x y : Float} (nonzeroX : Arith.isZero x = false)
    (nonzeroY : Arith.isZero y = false) (sides : Arith.isNegative x ≠ Arith.isNegative y) :
    Arith.eq (Arith.signum x) (Arith.signum y) = false := by
  have self {z : Float} (h : z.isNaN) : Arith.signum z = z := if_pos h
  cases numberX : x.isNaN with
  | true =>
      rw [self numberX]
      exact (eq_of_isNaN numberX _).1
  | false =>
      cases numberY : y.isNaN with
      | true =>
          rw [self numberY]
          exact (eq_of_isNaN numberY _).2
      | false =>
          rw [signum_eq numberX nonzeroX, signum_eq numberY nonzeroY]
          revert sides
          cases Arith.isNegative x <;> cases Arith.isNegative y <;> decide +kernel

end ScalarSolve.Double
