import Mathlib.Tactic.FieldSimp
import Mathlib.Tactic.Ring
import ScalarSolve.Proofs.Arith.Exact
import ScalarSolve.Proofs.Program.Folding
import ScalarSolve.Proofs.Program.Simulation

/-!
# The derivative in the dual pass

The operations on dual numbers are the rules of differentiation, some of them in another form: a
quotient goes by the reciprocal of the divisor, and a constant power has a case for the exponent
zero.  In exact arithmetic the dual pass over a formula of rational operations therefore ends with
the value of the formula and a multiple of the value of its formal derivative, and it fails where
plain evaluation fails.

The induction is on how the formula is built.  Folding comes in between: what is folded has been
computed over plain numbers, and the dual pass finds a constant there.
-/

namespace ScalarSolve

open Formula

variable {F : Type} [Arith F]

/-! ## Formal derivatives -/

namespace Formula.Tree

/-- How a formula is built from numbers and the variable by signs, the four operations, and powers
with a constant natural number as exponent. -/
inductive Rational : Tree F → Type
  | number (v : F) : Rational (number v)
  | var : Rational var
  | neg {t : Tree F} (operand : Rational t) : Rational (neg t)
  | add {l r : Tree F} (left : Rational l) (right : Rational r) : Rational (binary .add l r)
  | sub {l r : Tree F} (left : Rational l) (right : Rational r) : Rational (binary .sub l r)
  | mul {l r : Tree F} (left : Rational l) (right : Rational r) : Rational (binary .mul l r)
  | div {l r : Tree F} (left : Rational l) (right : Rational r) : Rational (binary .div l r)
  | pow {l r : Tree F} (base : Rational l) (n : Nat) (constant : r.isConstant)
      (value : r.value Arith.zero = .ok (Arith.ofNat n)) : Rational (binary .pow l r)

/-- The formal derivative, by the rules for sums, products, quotients and powers. -/
def Rational.derivative : {t : Tree F} → Rational t → Tree F
  | _, number _ => .number Arith.zero
  | _, var => .number Arith.one
  | _, neg operand => .neg operand.derivative
  | _, add left right => .binary .add left.derivative right.derivative
  | _, sub left right => .binary .sub left.derivative right.derivative
  | _, @mul _ _ l r left right =>
    .binary .add (.binary .mul left.derivative r) (.binary .mul l right.derivative)
  | _, @div _ _ l r left right =>
    .binary .div
      (.binary .sub (.binary .mul left.derivative r) (.binary .mul l right.derivative))
      (.binary .mul r r)
  | _, @pow _ _ l _ base n _ _ =>
    .binary .mul
      (.binary .mul (.number (Arith.ofNat n)) (.binary .pow l (.number (Arith.ofNat (n - 1)))))
      base.derivative

end Formula.Tree

/-- Where every scalar is finite, operators have values everywhere but for quotients by zero. -/
theorem Machine.operate_of_defined {S : Type} [Scalar F S]
    (isFinite : ∀ v : S, Scalar.isFinite F v) (x : F) {op : Operator} {a b : S}
    (defined : op = .div → ¬ Arith.isZero (Scalar.value b : F)) :
    operate x op a b = .ok (Scalar.operator F op a b) := by
  have computed (v : S) : finite x v = .ok v := if_pos (isFinite v)
  cases op with
  | add | sub | mul | pow => exact computed _
  | div => exact (if_neg (defined rfl)).trans (computed _)

section

variable {K : Type*} [Field K] {ι : F → K} (isExact : Arith.Exact ι)

include isExact

/-! ## Operations on dual numbers

The slopes of the operands are multiples of the slope `s` of the variable, and so is the slope of
the result. -/

namespace Dual

theorem constant_scaled (s c : F) : constant c = ⟨c, s * Arith.zero⟩ := by
  rw [constant, Dual.mk.injEq]
  refine ⟨rfl, isExact.injective ?_⟩
  rw [isExact.mul, isExact.zero, mul_zero]

theorem neg_scaled (s a a' : F) : neg ⟨a, s * a'⟩ = ⟨-a, s * -a'⟩ := by
  rw [neg, Dual.mk.injEq]
  refine ⟨rfl, isExact.injective ?_⟩
  simp only [isExact.neg, isExact.mul]
  ring

theorem add_scaled (s a a' b b' : F) :
    add ⟨a, s * a'⟩ ⟨b, s * b'⟩ = ⟨a + b, s * (a' + b')⟩ := by
  rw [add, Dual.mk.injEq]
  refine ⟨rfl, isExact.injective ?_⟩
  simp only [isExact.add, isExact.mul]
  ring

theorem sub_scaled (s a a' b b' : F) :
    sub ⟨a, s * a'⟩ ⟨b, s * b'⟩ = ⟨a - b, s * (a' - b')⟩ := by
  rw [sub, Dual.mk.injEq]
  refine ⟨rfl, isExact.injective ?_⟩
  simp only [isExact.sub, isExact.mul]
  ring

theorem mul_scaled (s a a' b b' : F) :
    mul ⟨a, s * a'⟩ ⟨b, s * b'⟩ = ⟨a * b, s * (a' * b + a * b')⟩ := by
  rw [mul, Dual.mk.injEq]
  refine ⟨rfl, isExact.injective ?_⟩
  simp only [isExact.add, isExact.mul]
  ring

/-- The reciprocal of the divisor comes to the quotient rule. -/
theorem div_scaled (s a a' : F) {b : F} (nonzero : ι b ≠ 0) (b' : F) :
    div ⟨a, s * a'⟩ ⟨b, s * b'⟩ = ⟨a / b, s * ((a' * b - a * b') / (b * b))⟩ := by
  rw [div, Dual.mk.injEq]
  constructor
  · apply isExact.injective
    simp only [isExact.mul, isExact.div, isExact.one]
    field_simp
  · apply isExact.injective
    simp only [isExact.mul, isExact.sub, isExact.div, isExact.one]
    field_simp

/-- The case for the exponent zero comes to the power rule. -/
theorem powConst_scaled [CharZero K] (s a a' : F) (n : ℕ) :
    powConst ⟨a, s * a'⟩ (Arith.ofNat n) = ⟨Arith.pow a (Arith.ofNat n),
      s * (Arith.ofNat n * Arith.pow a (Arith.ofNat (n - 1)) * a')⟩ := by
  unfold powConst
  cases n with
  | zero =>
      have isZero : Arith.isZero (Arith.ofNat 0 : F) := isExact.isZero_iff.mpr isExact.zero
      rw [if_pos isZero, constant, Dual.mk.injEq]
      constructor
      · apply isExact.injective
        rw [isExact.one, isExact.pow, pow_zero]
      · apply isExact.injective
        rw [isExact.mul, isExact.mul, isExact.mul, isExact.ofNat, isExact.zero]
        simp
  | succ n =>
      have nonzero : ¬ Arith.isZero (Arith.ofNat (n + 1) : F) := by
        rw [isExact.isZero_iff, isExact.ofNat]
        exact Nat.cast_ne_zero.mpr (Nat.succ_ne_zero n)
      have pred : (Arith.ofNat (n + 1) - Arith.one : F) = Arith.ofNat n := by
        apply isExact.injective
        rw [isExact.sub, isExact.ofNat, isExact.ofNat, isExact.one, Nat.cast_succ,
          add_sub_cancel_right]
      rw [if_neg nonzero, pred, Nat.add_sub_cancel, Dual.mk.injEq]
      refine ⟨rfl, isExact.injective ?_⟩
      simp only [isExact.mul]
      ring

/-! Operations on constants have constant results. -/

theorem neg_constant (a : F) : neg (constant a) = constant (-a) := by
  change Dual.mk _ _ = Dual.mk _ _
  rw [Dual.mk.injEq]
  refine ⟨rfl, isExact.injective ?_⟩
  simp only [constant, isExact.neg, isExact.zero, neg_zero]

theorem operator_constant {op : Operator} (arithmetic : op ≠ .pow) (a b : F) :
    Scalar.operator F op (constant a) (constant b) = constant (Scalar.operator F op a b) := by
  cases op with
  | pow => exact absurd rfl arithmetic
  | add | sub | mul =>
      change Dual.mk _ _ = Dual.mk _ _
      rw [Dual.mk.injEq]
      refine ⟨rfl, isExact.injective ?_⟩
      simp [constant, isExact.add, isExact.sub, isExact.mul, isExact.zero]
  | div =>
      change Dual.mk (a * (Arith.one / b)) _ = Dual.mk (a / b) _
      rw [Dual.mk.injEq]
      constructor
      · apply isExact.injective
        rw [isExact.mul, isExact.div, isExact.div, isExact.one, mul_one_div]
      · apply isExact.injective
        simp [constant, isExact.sub, isExact.mul, isExact.zero]

theorem powConst_constant [CharZero K] (a : F) (n : ℕ) :
    powConst (constant a) (Arith.ofNat n) = constant (Arith.pow a (Arith.ofNat n)) := by
  rw [constant_scaled isExact Arith.zero a, powConst_scaled isExact, constant, Dual.mk.injEq]
  refine ⟨rfl, isExact.injective ?_⟩
  rw [isExact.mul, isExact.zero, zero_mul]

end Dual

namespace Formula.Tree

/-! ## Folding in the dual pass -/

theorem operatorAt_of_defined (x : F) (op : Operator) {a b : F}
    (defined : op = .div → ¬ Arith.isZero b) :
    operatorAt x op a b = .ok (Scalar.operator F op a b) := by
  rw [← operate_self]
  exact Machine.operate_of_defined isExact.isFinite x defined

omit isExact in
theorem defined_of_operatorAt {x : F} {op : Operator} {a b v : F}
    (h : operatorAt x op a b = .ok v) : op = .div → ¬ Arith.isZero b := by
  rintro rfl isZero
  rw [operatorAt, if_pos isZero] at h
  cases h

theorem scalarValue_foldedNeg (t : Tree F) (x : Dual F) :
    (foldedNeg t).scalarValue x = (t.scalarValue x).map Dual.neg := by
  rcases foldedNeg_cases t with eq | ⟨v, rfl, eq⟩
  · rw [eq, scalarValue]
    cases t.scalarValue x with
    | error e => rfl
    | ok a => exact if_pos (isExact.isFinite_dual _)
  · rw [eq]
    exact congrArg Except.ok (Dual.neg_constant isExact v).symm

theorem scalarValue_foldedBinary {op : Operator} (arithmetic : op ≠ .pow) (l r : Tree F)
    (x : Dual F) :
    (foldedBinary op l r).scalarValue x = (do
      let a ← l.scalarValue x
      let b ← r.scalarValue x
      Machine.operate x.re op a b) := by
  rcases foldedBinary_cases op l r with eq | ⟨a, b, v, rfl, rfl, computed, eq⟩
  · rw [eq]
    exact scalarValue_binary (fun _ pow _ ↦ arithmetic pow) x
  · -- The operator has been applied to plain numbers, and here it meets them as constants.
    have defined := defined_of_operatorAt computed
    rw [operatorAt_of_defined isExact _ op defined] at computed
    cases computed
    rw [eq]
    change _ = Machine.operate x.re op (Dual.constant a) (Dual.constant b)
    rw [Machine.operate_of_defined isExact.isFinite_dual x.re defined,
      Dual.operator_constant isExact arithmetic]
    rfl

theorem scalarValue_foldedPow [CharZero K] (l : Tree F) (n : ℕ) (x : Dual F) :
    (foldedBinary .pow l (number (Arith.ofNat n))).scalarValue x =
      (l.scalarValue x).map (Dual.powConst · (Arith.ofNat n)) := by
  rcases foldedBinary_cases .pow l (number (Arith.ofNat n)) with
    eq | ⟨a, b, v, rfl, exponent, computed, eq⟩
  · rw [eq, scalarValue]
    cases l.scalarValue x with
    | error e => rfl
    | ok a => exact if_pos (isExact.isFinite_dual _)
  · cases exponent
    rw [operatorAt_of_defined isExact _ .pow (by simp)] at computed
    cases computed
    rw [eq]
    exact congrArg Except.ok (Dual.powConst_constant isExact a n).symm

/-! ## The whole formula -/

theorem value_binary (op : Operator) {x : F} {l r : Tree F} {a b : F} (left : l.value x = .ok a)
    (right : r.value x = .ok b) (defined : op = .div → ¬ Arith.isZero b) :
    (binary op l r).value x = .ok (Scalar.operator F op a b) := by
  rw [value, left, right]
  exact operatorAt_of_defined isExact x op defined

omit isExact in
/-- Where the formula has a value so has the derivative, and the dual pass has both, the second one
times `s`.  Otherwise the dual pass fails like the formula, at a quotient by zero. -/
def Carries (x s : F) (value derivative : Except (EvalError F) F)
    (dual : Except (EvalError F) (Dual F)) : Prop :=
  (∃ v d, value = .ok v ∧ derivative = .ok d ∧ dual = .ok ⟨v, s * d⟩) ∨
    value = .error (.divisionByZero x) ∧ dual = .error (.divisionByZero x)

/-- A rule of differentiation for an operator carries over from the operands. -/
theorem Carries.binary {op : Operator} (arithmetic : op ≠ .pow) {x s : F} {l r l' r' t : Tree F}
    (left : Carries x s (l.value x) (l'.value x) (l.fold.scalarValue (⟨x, s⟩ : Dual F)))
    (right : Carries x s (r.value x) (r'.value x) (r.fold.scalarValue (⟨x, s⟩ : Dual F)))
    (rule : ∀ a a' b b', l.value x = .ok a → l'.value x = .ok a' → r.value x = .ok b →
      r'.value x = .ok b' → (op = .div → ¬ Arith.isZero b) → ∃ d, t.value x = .ok d ∧
        Scalar.operator F op (⟨a, s * a'⟩ : Dual F) ⟨b, s * b'⟩ =
          ⟨Scalar.operator F op a b, s * d⟩) :
    Carries x s ((binary op l r).value x) (t.value x)
      ((binary op l r).fold.scalarValue (⟨x, s⟩ : Dual F)) := by
  rw [fold, scalarValue_foldedBinary isExact arithmetic, value]
  rcases left with ⟨a, a', valueL, slopeL, dualL⟩ | ⟨valueL, dualL⟩
  · rcases right with ⟨b, b', valueR, slopeR, dualR⟩ | ⟨valueR, dualR⟩
    · rw [valueL, dualL, valueR, dualR]
      change Carries x s (operatorAt x op a b) (t.value x)
        (Machine.operate x op (⟨a, s * a'⟩ : Dual F) ⟨b, s * b'⟩)
      by_cases defined : op = .div → ¬ Arith.isZero b
      · obtain ⟨d, slope, computed⟩ := rule a a' b b' valueL slopeL valueR slopeR defined
        refine .inl ⟨_, d, operatorAt_of_defined isExact x op defined, slope, ?_⟩
        rw [Machine.operate_of_defined isExact.isFinite_dual x defined, computed]
      · obtain ⟨rfl, zero⟩ := Classical.not_imp.mp defined
        have isZero := not_not.mp zero
        exact .inr ⟨if_pos isZero, if_pos isZero⟩
    · rw [valueL, dualL, valueR, dualR]
      exact .inr ⟨rfl, rfl⟩
  · rw [valueL, dualL]
    exact .inr ⟨rfl, rfl⟩

/-- The dual pass over the folded formula carries the value and the derivative of the formula. -/
theorem carries_fold [CharZero K] {t : Tree F} (built : t.Rational) (x s : F) :
    Carries x s (t.value x) (built.derivative.value x)
      (t.fold.scalarValue (⟨x, s⟩ : Dual F)) := by
  induction built with
  | number v =>
      exact .inl ⟨v, Arith.zero, rfl, rfl, congrArg _ (Dual.constant_scaled isExact s v)⟩
  | var =>
      have unit : s = s * Arith.one :=
        isExact.injective (by rw [isExact.mul, isExact.one, mul_one])
      exact .inl ⟨x, Arith.one, rfl, rfl, congrArg (fun d ↦ Except.ok (Dual.mk x d)) unit⟩
  | neg operand ih =>
      rw [fold, scalarValue_foldedNeg isExact, Rational.derivative, value, value]
      rcases ih with ⟨a, a', valueT, slopeT, dualT⟩ | ⟨valueT, dualT⟩
      · rw [valueT, slopeT, dualT]
        refine .inl ⟨-a, -a', if_pos (isExact.isFinite _), if_pos (isExact.isFinite _), ?_⟩
        exact congrArg _ (Dual.neg_scaled isExact s a a')
      · rw [valueT, dualT]
        exact .inr ⟨rfl, rfl⟩
  | add left right ihl ihr =>
      refine Carries.binary isExact (by decide : Operator.add ≠ .pow) ihl ihr ?_
      intro a a' b b' _ slopeL _ slopeR _
      have slope := value_binary isExact .add slopeL slopeR (by simp)
      exact ⟨_, slope, Dual.add_scaled isExact s a a' b b'⟩
  | sub left right ihl ihr =>
      refine Carries.binary isExact (by decide : Operator.sub ≠ .pow) ihl ihr ?_
      intro a a' b b' _ slopeL _ slopeR _
      have slope := value_binary isExact .sub slopeL slopeR (by simp)
      exact ⟨_, slope, Dual.sub_scaled isExact s a a' b b'⟩
  | mul left right ihl ihr =>
      refine Carries.binary isExact (by decide : Operator.mul ≠ .pow) ihl ihr ?_
      intro a a' b b' valueL slopeL valueR slopeR _
      have first := value_binary isExact .mul slopeL valueR (by simp)
      have second := value_binary isExact .mul valueL slopeR (by simp)
      have slope := value_binary isExact .add first second (by simp)
      exact ⟨_, slope, Dual.mul_scaled isExact s a a' b b'⟩
  | div left right ihl ihr =>
      refine Carries.binary isExact (by decide : Operator.div ≠ .pow) ihl ihr ?_
      intro a a' b b' valueL slopeL valueR slopeR defined
      have nonzero : ι b ≠ 0 := isExact.isZero_iff.not.mp (defined rfl)
      have nonzeroSquare : ¬ Arith.isZero (b * b) := by
        rw [isExact.isZero_iff, isExact.mul]
        exact mul_ne_zero nonzero nonzero
      have first := value_binary isExact .mul slopeL valueR (by simp)
      have second := value_binary isExact .mul valueL slopeR (by simp)
      have above := value_binary isExact .sub first second (by simp)
      have below := value_binary isExact .mul valueR valueR (by simp)
      exact ⟨_, value_binary isExact .div above below fun _ ↦ nonzeroSquare,
        Dual.div_scaled isExact s a a' nonzero b'⟩
  | @pow l r base n constant exponent ih =>
      -- The exponent is folded to its value, and the power has the instruction for constant ones.
      have folded : r.fold = number (Arith.ofNat n) := fold_of_value constant exponent
      have exponentHere : r.value x = .ok (Arith.ofNat n) := by
        rw [← isExact.value_fold, folded]
        rfl
      rw [fold, folded, scalarValue_foldedPow isExact]
      rcases ih with ⟨a, a', valueL, slopeL, dualL⟩ | ⟨valueL, dualL⟩
      · have lower := value_binary isExact .pow (r := number (Arith.ofNat (n - 1))) valueL rfl
          (by simp)
        have factor := value_binary isExact .mul (l := number (Arith.ofNat n)) rfl lower (by simp)
        have slope := value_binary isExact .mul factor slopeL (by simp)
        have power := value_binary isExact .pow valueL exponentHere (by simp)
        refine .inl ⟨_, _, power, slope, ?_⟩
        rw [dualL]
        exact congrArg _ (Dual.powConst_scaled isExact s a a' n)
      · rw [value, valueL, dualL]
        exact .inr ⟨rfl, rfl⟩

end Formula.Tree

/-- In exact arithmetic the dual pass differentiates.  At the value `x` with the slope `s` it
succeeds where plain evaluation does at `x`, with the same value and with `s` times the value of the
formal derivative for the slope.  Where it does not succeed, both meet a quotient by zero. -/
theorem Program.execute_derivative [CharZero K] {t : Formula.Tree F} (built : t.Rational)
    {p : Program F} (compiled : ofTree t = .ok p) (x s : F) :
    ((∃ w, p.execute (⟨x, s⟩ : Dual F) = .ok w) ↔ ∃ v, p.execute x = .ok v) ∧
      (∀ v, p.execute x = .ok v → ∃ d, built.derivative.value x = .ok d ∧
        p.execute (⟨x, s⟩ : Dual F) = .ok ⟨v, s * d⟩) ∧
      ∀ e, p.execute x = .error e →
        e = .undefined (.divisionByZero x) ∧ p.execute (⟨x, s⟩ : Dual F) = .error e := by
  obtain ⟨rfl, fits⟩ := ofTree_eq_ok compiled
  have room : Instr.peakFrom 0 t.fold.code ≤ stackCapacity := Nat.le_trans fits (by decide)
  have plain : execute ⟨t.fold.code, Instr.peakFrom 0 t.fold.code⟩ x =
      (t.value x).mapError .undefined := by
    rw [execute_code t.fold room, Tree.scalarValue_self, isExact.value_fold]
    exact if_pos (isExact.isFinite x)
  have dual : execute ⟨t.fold.code, Instr.peakFrom 0 t.fold.code⟩ (⟨x, s⟩ : Dual F) =
      (t.fold.scalarValue (⟨x, s⟩ : Dual F)).mapError .undefined := by
    rw [execute_code t.fold room]
    exact if_pos (isExact.isFinite_dual ⟨x, s⟩)
  rw [plain, dual]
  rcases Tree.carries_fold isExact built x s with ⟨v, d, value, slope, carried⟩ | ⟨value, carried⟩
  · rw [value, slope, carried]
    simp
  · rw [value, carried]
    simp

end

namespace Program

/-- The tree of `(x ^ (1 + 1) * 3 - 1) / -x`. -/
def squareOverNeg : Formula.Tree ℚ :=
  .binary .div
    (.binary .sub
      (.binary .mul (.binary .pow .var (.binary .add (.number 1) (.number 1))) (.number 3))
      (.number 1))
    (.neg .var)

/-- Over the rationals, with five for the slope of the variable.  There is no value at zero. -/
theorem execute_derivative_squareOverNeg :
    letI := Arith.rationals
    ∃ (built : squareOverNeg.Rational) (p : Program ℚ), ofTree squareOverNeg = .ok p ∧
      p.execute (2 : ℚ) = .ok (-11 / 2) ∧ built.derivative.value 2 = .ok (-13 / 4) ∧
      p.execute (⟨2, 5⟩ : Dual ℚ) = .ok ⟨-11 / 2, -65 / 4⟩ ∧
      p.execute (⟨0, 5⟩ : Dual ℚ) = .error (.undefined (.divisionByZero 0)) := by
  let := Arith.rationals
  let built : squareOverNeg.Rational :=
    .div (.sub (.mul (.pow .var 2 rfl (by decide +kernel)) (.number 3)) (.number 1)) (.neg .var)
  have compiled : ofTree squareOverNeg = .ok ⟨[.var, .powConst 2, .const 3, .binary .mul, .const 1,
      .binary .sub, .var, .neg, .binary .div], 2⟩ := by decide +kernel
  have plain : execute ⟨[.var, .powConst 2, .const (3 : ℚ), .binary .mul, .const 1, .binary .sub,
      .var, .neg, .binary .div], 2⟩ (2 : ℚ) = .ok (-11 / 2) := by decide +kernel
  have slope : built.derivative.value 2 = .ok (-13 / 4) := by decide +kernel
  obtain ⟨-, value, -⟩ := execute_derivative Arith.exact_rationals built compiled 2 5
  obtain ⟨-, -, failure⟩ := execute_derivative Arith.exact_rationals built compiled 0 5
  obtain ⟨d, slope', dual⟩ := value _ plain
  obtain rfl : d = -13 / 4 := Except.ok.inj (slope'.symm.trans slope)
  refine ⟨built, _, compiled, plain, slope, dual.trans (by decide +kernel), ?_⟩
  exact (failure (.undefined (.divisionByZero 0)) (by decide +kernel)).2

end Program

end ScalarSolve
