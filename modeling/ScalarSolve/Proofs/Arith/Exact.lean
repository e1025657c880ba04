import Mathlib.Data.Rat.Cast.CharZero
import ScalarSolve.Dual
import ScalarSolve.Proofs.Program.Correctness

/-!
# Exact arithmetic

Doubles round, and so every law of arithmetic fails somewhere.  Where the question is what formulas
mean and not how they round, numbers stand for elements of a field, with the operations of the field
and with nothing infinite among them.
-/

namespace ScalarSolve

open Formula

variable {F : Type}

/-- Arithmetic that is exact.  Numbers stand for elements of a field, all of them are finite, and
operations and tests are those of the field.  Of powers only those with a natural number as exponent
are told, and nothing of functions. -/
structure Arith.Exact [Arith F] {K : Type*} [Field K] (ι : F → K) : Prop where
  injective : Function.Injective ι
  ofNat : ∀ n : ℕ, ι (Arith.ofNat n) = n
  neg : ∀ a : F, ι (-a) = -ι a
  add : ∀ a b : F, ι (a + b) = ι a + ι b
  sub : ∀ a b : F, ι (a - b) = ι a - ι b
  mul : ∀ a b : F, ι (a * b) = ι a * ι b
  div : ∀ a b : F, ι (a / b) = ι a / ι b
  pow : ∀ (a : F) (n : ℕ), ι (Arith.pow a (Arith.ofNat n)) = ι a ^ n
  eq : ∀ a b : F, Arith.eq a b ↔ a = b
  isFinite : ∀ a : F, Arith.isFinite a

namespace Arith.Exact

variable [Arith F] {K : Type*} [Field K] {ι : F → K} (isExact : Arith.Exact ι)

include isExact

theorem zero : ι Arith.zero = 0 := by
  rw [Arith.zero, isExact.ofNat, Nat.cast_zero]

theorem one : ι Arith.one = 1 := by
  rw [Arith.one, isExact.ofNat, Nat.cast_one]

theorem isZero_iff {a : F} : Arith.isZero a ↔ ι a = 0 := by
  rw [Arith.isZero, isExact.eq, ← isExact.zero]
  exact isExact.injective.eq_iff.symm

theorem isFinite_dual (a : Dual F) : Scalar.isFinite F a :=
  Bool.and_eq_true_iff.mpr ⟨isExact.isFinite a.re, isExact.isFinite a.eps⟩

theorem hasFiniteNumbers (t : Formula.Tree F) : t.hasFiniteNumbers := by
  induction t with
  | number v => exact isExact.isFinite v
  | var => rfl
  | neg t ih => exact ih
  | binary op l r ihl ihr => exact Bool.and_eq_true_iff.mpr ⟨ihl, ihr⟩
  | call f t ih => exact ih

/-- Folding keeps the value of every formula. -/
theorem value_fold (t : Formula.Tree F) (x : F) : t.fold.value x = t.value x :=
  Tree.value_fold (fun v _ ↦ isExact.isFinite (-v)) (isExact.hasFiniteNumbers t) x

end Arith.Exact

/-- Rational numbers as a number type, with powers for natural exponents and without functions. -/
@[reducible] def Arith.rationals : Arith ℚ where
  add := (· + ·)
  sub := (· - ·)
  mul := (· * ·)
  div := (· / ·)
  neg := (-·)
  sin _ := 0
  cos _ := 0
  tan _ := 0
  exp _ := 0
  log _ := 0
  sqrt _ := 0
  abs a := |a|
  pow a b := a ^ b.num.toNat
  signum a := if a < 0 then -1 else 1
  eq a b := a = b
  lt a b := a < b
  le a b := a ≤ b
  isFinite _ := true
  ofNat n := n
  ofDecimal coefficient exponent := coefficient * 10 ^ exponent
  pi := 0
  e := 0
  nan := 0
  infinity := 0
  relativeStep := 0

theorem Arith.exact_rationals :
    letI := Arith.rationals
    Arith.Exact (id : ℚ → ℚ) :=
  letI := Arith.rationals
  { injective := Function.injective_id
    ofNat := fun _ ↦ rfl
    neg := fun _ ↦ rfl
    add := fun _ _ ↦ rfl
    sub := fun _ _ ↦ rfl
    mul := fun _ _ ↦ rfl
    div := fun _ _ ↦ rfl
    pow := fun a n ↦ by
      change a ^ (n : ℚ).num.toNat = a ^ n
      rw [Rat.num_natCast, Int.toNat_natCast]
    eq := fun _ _ ↦ decide_eq_true_iff
    isFinite := fun _ ↦ rfl }

end ScalarSolve
