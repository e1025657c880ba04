import Mathlib
import ScalarSolve.Arith.Double

/-!
# Signs of doubles

The negative of a finite double is finite.  A pattern of bits stands for a finite number unless its
exponent is all ones, and changing the sign of what has been unpacked leaves the exponent alone.
-/

namespace ScalarSolve.Double

open Float.Model Float.Model.UnpackedFloat

/-- A bit pattern stands for a finite number unless its exponent is all ones. -/
theorem isFinite_unpack (b : BitVec Format.binary64.numBits) :
    (UnpackedFloat.unpack .binary64 b).isFinite ↔ unpackExponent b ≠ -1#_ := by
  unfold UnpackedFloat.unpack
  dsimp only
  split
  · next ones => split <;> exact iff_of_false Bool.false_ne_true fun proper ↦ proper ones
  · next ones =>
      split
      · split <;> exact iff_of_true rfl ones
      · exact iff_of_true rfl ones

/-- The biased exponent of a finite number stays below the one that is all ones. -/
theorem exponent_lt_of_unpack {b : BitVec Format.binary64.numBits} {s : Sign} {m : Nat} {e : Int}
    {positive : 0 < m} (h : UnpackedFloat.unpack .binary64 b = .finite s m e positive) :
    (e + 1023 + 52).toNat + 1 < 2048 := by
  have range : (unpackExponent b).toNat < 2 ^ 11 := (unpackExponent b).isLt
  have bias : Format.binary64.exponentBias = 1023 := rfl
  unfold UnpackedFloat.unpack at h
  dsimp only at h
  split at h
  · split at h <;> cases h
  · next ones =>
      have proper : (unpackExponent b).toNat ≠ 2 ^ 11 - 1 := by
        intro eq
        exact ones (BitVec.eq_of_toNat_eq eq)
      split at h
      · next zero =>
          split at h
          · cases h
          · cases h
            rw [zero, bias]
            decide
      · cases h
        rw [bias]
        omega

/-- Packing keeps such an exponent, whether the number is normal or not. -/
theorem unpackExponent_pack {s : Sign} {m : Nat} {e : Int} {positive : 0 < m}
    (h : (e + 1023 + 52).toNat + 1 < 2048) :
    unpackExponent (UnpackedFloat.pack .binary64 (.finite s m e positive)) ≠ -1#_ := by
  unfold UnpackedFloat.pack
  dsimp only
  split
  · next overflow => exact absurd h (Nat.not_lt.mpr overflow)
  · split
    · rw [unpackExponent_packComponents]
      intro eq
      have same : (BitVec.ofNat 11 (e + 1023 + 52).toNat).toNat = 2 ^ 11 - 1 :=
        congrArg BitVec.toNat eq
      rw [BitVec.toNat_ofNat] at same
      omega
    · rw [unpackExponent_packComponents]
      decide

/-- What changes no more than the sign of a finite double keeps it finite. -/
theorem isFinite_pack_of_sign {f : UnpackedFloat → UnpackedFloat}
    (zero : ∀ s, ∃ s', f (.zero s) = .zero s')
    (number : ∀ s m e positive, ∃ s', f (.finite s m e positive) = .finite s' m e positive)
    {x : Float} (h : Arith.isFinite x) :
    (UnpackedFloat.unpack .binary64
      (UnpackedFloat.pack .binary64 (f x.toModel.unpack))).isFinite := by
  have finite : x.toModel.unpack.isFinite := h
  rw [isFinite_unpack]
  cases eq : x.toModel.unpack with
  | notANumber =>
      rw [eq] at finite
      cases finite
  | infinity s =>
      rw [eq] at finite
      cases finite
  | zero s =>
      obtain ⟨s', same⟩ := zero s
      rw [same]
      change unpackExponent (packComponents .binary64 s' 0 0) ≠ _
      rw [unpackExponent_packComponents]
      decide
  | finite s m e positive =>
      obtain ⟨s', same⟩ := number s m e positive
      rw [same]
      exact unpackExponent_pack (exponent_lt_of_unpack eq)

/-- Negation keeps doubles finite. -/
theorem isFinite_neg (x : Float) (h : Arith.isFinite x) : Arith.isFinite (-x) :=
  isFinite_pack_of_sign (f := UnpackedFloat.neg) (fun _ ↦ ⟨_, rfl⟩) (fun _ _ _ _ ↦ ⟨_, rfl⟩) h

theorem isFinite_abs (x : Float) (h : Arith.isFinite x) : Arith.isFinite (Arith.abs x) :=
  isFinite_pack_of_sign (f := UnpackedFloat.abs) (fun _ ↦ ⟨_, rfl⟩) (fun _ _ _ _ ↦ ⟨_, rfl⟩) h

end ScalarSolve.Double
