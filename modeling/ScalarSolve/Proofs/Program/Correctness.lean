import ScalarSolve.Formula.Value
import ScalarSolve.Proofs.Arith.Double
import ScalarSolve.Proofs.Program.Safety

/-!
# Programs have the values of their trees

Two things separate a program from its tree: constant parts are computed beforehand, away from the
point of evaluation, and the rest is written out for the stack machine, where constant exponents
have an instruction of their own.

* `Machine.run_code` says what the code of a tree does on any stack with room for it, over any
  scalars: it pushes the value of the tree, or fails as the tree does.
* `Tree.value_fold` says that folding keeps values and errors, if numbers are finite and remain so
  when they are negated.  A negation is folded without a test, and an infinite literal would slip
  through there.

A compiled program has both behind it.
-/

namespace ScalarSolve

open Formula

variable {F S : Type} [Arith F]

/-! ## Code -/

namespace Formula.Tree

variable [Scalar F S]

/-- The value of a tree over any scalars, where the variable is `x`.  A number as exponent makes a
constant power. -/
def scalarValue (x : S) : Tree F → Except (EvalError F) S
  | number c => .ok (Scalar.constant c)
  | var => .ok x
  | neg t => do Machine.finite (Scalar.value x) (Scalar.neg F (← t.scalarValue x))
  | binary .pow l (number n) => do
    Machine.finite (Scalar.value x) (Scalar.powConst (← l.scalarValue x) n)
  | binary op l r => do
    let a ← l.scalarValue x
    let b ← r.scalarValue x
    Machine.operate (Scalar.value x) op a b
  | call f t => do Machine.apply (Scalar.value x) f (← t.scalarValue x)

/-- Operators other than constant powers are applied to the values of both operands. -/
theorem scalarValue_binary {op : Operator} {l r : Tree F}
    (varying : ∀ n, op = .pow → r = .number n → False) (x : S) :
    (binary op l r).scalarValue x = (do
      let a ← l.scalarValue x
      let b ← r.scalarValue x
      Machine.operate (Scalar.value x) op a b) :=
  scalarValue.eq_5 x op l r varying

end Formula.Tree

namespace Machine

variable [Scalar F S]

/-- The code of a tree pushes the value of the tree, given room for its peak. -/
theorem run_code (x : S) (t : Formula.Tree F) (stack : List S)
    (room : Instr.peakFrom stack.length t.code ≤ stackCapacity) :
    run x t.code stack = leave stack (t.scalarValue x) := by
  fun_induction Tree.code t generalizing stack with
  | case1 v =>
      have fits : stack.length + 1 ≤ stackCapacity := Nat.le_trans (Nat.le_max_right _ _) room
      rw [run_cons, step, push_of_room fits]
      rfl
  | case2 =>
      have fits : stack.length + 1 ≤ stackCapacity := Nat.le_trans (Nat.le_max_right _ _) room
      rw [run_cons, step, push_of_room fits]
      rfl
  | case3 t ih =>
      rw [Instr.peakFrom_append] at room
      rw [run_append, ih stack (Nat.le_trans (Nat.le_max_left _ _) room), Tree.scalarValue]
      cases t.scalarValue x with
      | error e => rfl
      | ok a =>
          change leave stack (finite (Scalar.value x : F) (Scalar.neg F a)) >>= Except.ok = _
          exact bind_pure _
  | case4 l n ih =>
      rw [Instr.peakFrom_append] at room
      rw [run_append, ih stack (Nat.le_trans (Nat.le_max_left _ _) room), Tree.scalarValue]
      cases l.scalarValue x with
      | error e => rfl
      | ok a =>
          change leave stack (finite (Scalar.value x : F) (Scalar.powConst a n)) >>= Except.ok = _
          exact bind_pure _
  | case5 op l r varying ihl ihr =>
      rw [Instr.peakFrom_append, Instr.peakFrom_append] at room
      have roomBoth := Nat.le_trans (Nat.le_max_left _ _) room
      have roomLeft := Nat.le_trans (Nat.le_max_left _ _) roomBoth
      have roomRight := Nat.le_trans (Nat.le_max_right _ _) roomBoth
      rw [(Instr.pushes_code l).height] at roomRight
      rw [run_append, run_append, ihl stack roomLeft, Tree.scalarValue_binary varying]
      cases l.scalarValue x with
      | error e => rfl
      | ok a =>
          -- The value of the left operand waits below while the right one is computed.
          change (run x r.code (a :: stack) >>= run x [.binary op]) = _
          rw [ihr (a :: stack) roomRight]
          cases r.scalarValue x with
          | error e => rfl
          | ok b =>
              change leave stack (operate (Scalar.value x : F) op a b) >>= Except.ok = _
              exact bind_pure _
  | case6 f t ih =>
      rw [Instr.peakFrom_append] at room
      rw [run_append, ih stack (Nat.le_trans (Nat.le_max_left _ _) room), Tree.scalarValue]
      cases t.scalarValue x with
      | error e => rfl
      | ok a =>
          change leave stack (apply (Scalar.value x : F) f a) >>= Except.ok = _
          exact bind_pure _

end Machine

/-- A program made of the code of a tree returns the value of the tree at a finite point, and its
error where the tree is undefined. -/
theorem Program.execute_code [Scalar F S] (t : Formula.Tree F) {depth : Nat}
    (room : Instr.peakFrom 0 t.code ≤ stackCapacity) (x : S) :
    Program.execute ⟨t.code, depth⟩ x =
      if Scalar.isFinite F x then (t.scalarValue x).mapError .undefined
      else .error (.undefined (.nonFinite (Scalar.value x))) := by
  rw [execute, Machine.run_code x t [] room]
  cases t.scalarValue x <;> rfl

/-! ## Numbers as scalars -/

namespace Formula.Tree

theorem operate_self (x : F) (op : Operator) (a b : F) :
    Machine.operate x op a b = operatorAt x op a b := by
  cases op <;> rfl

theorem apply_self (x : F) (f : Elementary) (a : F) : Machine.apply x f a = callAt x f a := by
  cases f <;> rfl

/-- Over the numbers themselves a constant power is a power like any other. -/
theorem scalarValue_self (x : F) (t : Tree F) : t.scalarValue x = t.value x := by
  fun_induction scalarValue x t with
  | case1 c => rfl
  | case2 => rfl
  | case3 t ih =>
      rw [ih]
      rfl
  | case4 l n ih =>
      rw [ih]
      rfl
  | case5 op l r _ ihl ihr =>
      rw [ihl, ihr]
      simp only [operate_self]
      rfl
  | case6 f t ih =>
      rw [ih]
      simp only [apply_self]
      rfl

end Formula.Tree

/-- Over the numbers, a program made of the code of a tree returns the value of the tree. -/
theorem Program.execute_code_self (t : Formula.Tree F) {depth : Nat}
    (room : Instr.peakFrom 0 t.code ≤ stackCapacity) (x : F) :
    Program.execute ⟨t.code, depth⟩ x = (t.valueAt x).mapError .undefined := by
  rw [execute_code t room, Tree.scalarValue_self, Tree.valueAt]
  by_cases here : Arith.isFinite x
  · exact (if_pos here).trans (by rw [if_pos here])
  · exact (if_neg here).trans (by rw [if_neg here]; rfl)

/-! ## Folding -/

namespace Formula.Tree

/-- A result with a point to report which, where it is a value, is finite and the same at all
points. -/
def Portable (r : F → Except (EvalError F) F) : Prop :=
  ∀ y v, r y = .ok v → Arith.isFinite v ∧ ∀ x, r x = .ok v

theorem portable_finiteAt (w : F) : Portable fun x ↦ finiteAt x w := by
  intro y v h
  unfold finiteAt at h ⊢
  split at h
  · next finite =>
      cases h
      exact ⟨finite, fun x ↦ if_pos finite⟩
  · cases h

/-- A test that does not look at the point. -/
theorem Portable.guard {c : Prop} [Decidable c] {e : F → EvalError F}
    {r : F → Except (EvalError F) F} (h : Portable r) :
    Portable fun x ↦ if c then .error (e x) else r x := by
  intro y v eq
  by_cases refused : c
  · simp only [if_pos refused] at eq
    cases eq
  · simp only [if_neg refused] at eq ⊢
    exact h y v eq

theorem portable_operatorAt (op : Operator) (a b : F) : Portable fun x ↦ operatorAt x op a b := by
  cases op with
  | add => exact portable_finiteAt _
  | sub => exact portable_finiteAt _
  | mul => exact portable_finiteAt _
  | div => exact (portable_finiteAt _).guard
  | pow => exact portable_finiteAt _

theorem portable_callAt (f : Elementary) (a : F) : Portable fun x ↦ callAt x f a := by
  cases f with
  | sin => exact portable_finiteAt _
  | cos => exact portable_finiteAt _
  | tan => exact portable_finiteAt _
  | exp => exact portable_finiteAt _
  | log => exact (portable_finiteAt _).guard
  | sqrt => exact (portable_finiteAt _).guard
  | abs => exact portable_finiteAt _

/-- Every number in the tree is finite. -/
def hasFiniteNumbers : Tree F → Bool
  | number v => Arith.isFinite v
  | var => true
  | neg t | call _ t => t.hasFiniteNumbers
  | binary _ l r => l.hasFiniteNumbers && r.hasFiniteNumbers

theorem foldedNeg_cases (t : Tree F) :
    foldedNeg t = neg t ∨ ∃ v, t = number v ∧ foldedNeg t = number (-v) := by
  cases t with
  | number v => exact .inr ⟨v, rfl, rfl⟩
  | var | neg | binary | call => exact .inl rfl

theorem foldedBinary_cases (op : Operator) (l r : Tree F) :
    foldedBinary op l r = binary op l r ∨
      ∃ a b v, l = number a ∧ r = number b ∧ operatorAt Arith.zero op a b = .ok v ∧
        foldedBinary op l r = number v := by
  fun_cases foldedBinary op l r with
  | case1 a b v computed =>
      rw [operate_self] at computed
      exact .inr ⟨a, b, v, rfl, rfl, computed, rfl⟩
  | case2 a b e => exact .inl rfl
  | case3 => exact .inl rfl

theorem foldedCall_cases (f : Elementary) (t : Tree F) :
    foldedCall f t = call f t ∨
      ∃ a v, t = number a ∧ callAt Arith.zero f a = .ok v ∧ foldedCall f t = number v := by
  fun_cases foldedCall f t with
  | case1 a v computed =>
      rw [apply_self] at computed
      exact .inr ⟨a, v, rfl, computed, rfl⟩
  | case2 a e => exact .inl rfl
  | case3 => exact .inl rfl

/-- An operator that is folded between two numbers keeps its value, or the error with the point. -/
theorem value_foldedBinary (op : Operator) (l r : Tree F) (x : F) :
    (foldedBinary op l r).value x = (binary op l r).value x := by
  rcases foldedBinary_cases op l r with eq | ⟨a, b, v, rfl, rfl, computed, eq⟩
  · rw [eq]
  · rw [eq]
    exact ((portable_operatorAt op a b _ v computed).2 x).symm

section

variable (isFinite_neg : ∀ v : F, Arith.isFinite v → Arith.isFinite (-v))

include isFinite_neg

theorem hasFiniteNumbers_fold {t : Tree F} (finite : t.hasFiniteNumbers) :
    t.fold.hasFiniteNumbers := by
  induction t with
  | number v => exact finite
  | var => rfl
  | neg t ih =>
      rw [fold]
      have folded := ih finite
      rcases foldedNeg_cases t.fold with eq | ⟨v, operand, eq⟩
      · rw [eq]
        exact folded
      · rw [operand] at folded
        rw [eq]
        exact isFinite_neg v folded
  | binary op l r ihl ihr =>
      obtain ⟨finiteLeft, finiteRight⟩ := Bool.and_eq_true_iff.mp finite
      rw [fold]
      rcases foldedBinary_cases op l.fold r.fold with eq | ⟨a, b, v, -, -, computed, eq⟩
      · rw [eq, hasFiniteNumbers, ihl finiteLeft, ihr finiteRight]
        rfl
      · rw [eq]
        exact (portable_operatorAt op a b _ v computed).1
  | call f t ih =>
      rw [fold]
      rcases foldedCall_cases f t.fold with eq | ⟨a, v, -, computed, eq⟩
      · rw [eq]
        exact ih finite
      · rw [eq]
        exact (portable_callAt f a _ v computed).1

/-- Folding keeps the value of a tree, or the error with the point where it is met. -/
theorem value_fold {t : Tree F} (finite : t.hasFiniteNumbers) (x : F) :
    t.fold.value x = t.value x := by
  induction t with
  | number v => rfl
  | var => rfl
  | neg t ih =>
      rw [fold, value, ← ih finite]
      have folded := hasFiniteNumbers_fold isFinite_neg (t := t) finite
      rcases foldedNeg_cases t.fold with eq | ⟨v, operand, eq⟩
      · rw [eq]
        rfl
      · rw [operand] at folded
        rw [eq, operand]
        exact (if_pos (isFinite_neg v folded)).symm
  | binary op l r ihl ihr =>
      obtain ⟨finiteLeft, finiteRight⟩ := Bool.and_eq_true_iff.mp finite
      rw [fold, value_foldedBinary, value, value, ihl finiteLeft, ihr finiteRight]
  | call f t ih =>
      rw [fold, value, ← ih finite]
      rcases foldedCall_cases f t.fold with eq | ⟨a, v, argument, computed, eq⟩
      · rw [eq]
        rfl
      · rw [eq, argument]
        exact ((portable_callAt f a _ v computed).2 x).symm

end

end Formula.Tree

/-! ## Compiled programs -/

namespace Program

/-- At every point, a compiled program gives exactly what its tree gives there: the same number, or
the first error in the order of evaluation, with the same point and argument.  It never meets an end
of the stack.  Of arithmetic only this is used, that a finite number stays finite when it is
negated. -/
theorem execute_ofTree (isFinite_neg : ∀ v : F, Arith.isFinite v → Arith.isFinite (-v))
    {t : Formula.Tree F} (finite : t.hasFiniteNumbers) {p : Program F}
    (compiled : ofTree t = .ok p) (x : F) :
    p.execute x = (t.valueAt x).mapError .undefined := by
  obtain ⟨rfl, fits⟩ := ofTree_eq_ok compiled
  have room : Instr.peakFrom 0 t.fold.code ≤ stackCapacity := Nat.le_trans fits (by decide)
  rw [execute_code_self t.fold room, Tree.valueAt, Tree.valueAt,
    Tree.value_fold isFinite_neg finite]

/-- The tree of `log(-(2 * 3)) + x ^ (1 - 2)`, in which everything but the logarithm and the power
is folded. -/
def undefinedLog : Formula.Tree Float :=
  .binary .add (.call .log (.neg (.binary .mul (.number 2) (.number 3))))
    (.binary .pow .var (.binary .sub (.number 1) (.number 2)))

/-- On doubles, a logarithm that is undefined everywhere is reported at the point of evaluation. -/
theorem execute_undefinedLog :
    undefinedLog.hasFiniteNumbers ∧
      ofTree undefinedLog =
        .ok ⟨[.const (-6), .call .log, .var, .powConst (-1), .binary .add], 2⟩ ∧
      execute ⟨[.const (-6), .call .log, .var, .powConst (-1), .binary .add], 2⟩ (5 : Float) =
        (undefinedLog.valueAt 5).mapError .undefined ∧
      undefinedLog.valueAt 5 = .error (.logNonPositive 5 (-6)) :=
  have compiled : ofTree undefinedLog =
      .ok ⟨[.const (-6), .call .log, .var, .powConst (-1), .binary .add], 2⟩ := by decide +kernel
  ⟨by decide, compiled, execute_ofTree Double.isFinite_neg (by decide) compiled 5,
    by decide +kernel⟩

end Program

end ScalarSolve
