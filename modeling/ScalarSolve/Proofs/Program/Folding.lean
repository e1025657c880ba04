import Mathlib.Data.List.Forall2
import ScalarSolve.Dual
import ScalarSolve.Proofs.Program.Correctness
import ScalarSolve.Proofs.Result

/-!
# Folded trees

Folding goes from the leaves up and computes an operator only between two numbers, so it could stop
short of a constant part that has a value.  It never does: a constant part with a value becomes the
number with that value, a second folding finds nothing left to do, and every part that is not inside
one that became a number keeps its place, folded itself.

What is left of a tree is written out part by part.  A power that is not folded away leaves one
instruction, which takes its exponent from the stack only where the exponent varies or is undefined.
A constant exponent with a value is part of the instruction, and its slope needs no logarithm of the
base.
-/

namespace ScalarSolve

open Formula

variable {F : Type}

namespace Formula.Tree

/-! ## Parts -/

/-- The variable does not occur. -/
def isConstant : Tree F → Bool
  | number _ => true
  | var => false
  | neg t | call _ t => t.isConstant
  | binary _ l r => l.isConstant && r.isConstant

/-- All that a tree consists of, in the order in which it is written out. -/
def parts : Tree F → List (Tree F)
  | number v => [number v]
  | var => [var]
  | neg t => t.parts ++ [neg t]
  | binary op l r => l.parts ++ r.parts ++ [binary op l r]
  | call f t => t.parts ++ [call f t]

def isNumber : Tree F → Bool
  | number _ => true
  | var | neg _ | binary _ _ _ | call _ _ => false

theorem parts_of_isNumber {t : Tree F} (h : t.isNumber) : t.parts = [t] := by
  cases t with
  | number v => rfl
  | var | neg | binary | call => cases h

variable [Arith F]

theorem fold_neg_of_not_isNumber {t : Tree F} (h : ¬ (neg t).fold.isNumber) :
    (neg t).fold = neg t.fold := by
  rcases foldedNeg_cases t.fold with eq | ⟨v, -, eq⟩
  · exact eq
  · exact absurd (congrArg isNumber eq) h

theorem fold_binary_of_not_isNumber {op : Operator} {l r : Tree F}
    (h : ¬ (binary op l r).fold.isNumber) : (binary op l r).fold = binary op l.fold r.fold := by
  rcases foldedBinary_cases op l.fold r.fold with eq | ⟨a, b, v, -, -, -, eq⟩
  · exact eq
  · exact absurd (congrArg isNumber eq) h

theorem fold_call_of_not_isNumber {f : Elementary} {t : Tree F}
    (h : ¬ (call f t).fold.isNumber) : (call f t).fold = call f t.fold := by
  rcases foldedCall_cases f t.fold with eq | ⟨a, v, -, -, eq⟩
  · exact eq
  · exact absurd (congrArg isNumber eq) h

/-- The parts that folding leaves in place: all but those inside a part that becomes a number. -/
def partsLeft : Tree F → List (Tree F)
  | number v => [number v]
  | var => [var]
  | neg t => if (neg t).fold.isNumber then [neg t] else t.partsLeft ++ [neg t]
  | binary op l r =>
    if (binary op l r).fold.isNumber then [binary op l r]
    else l.partsLeft ++ r.partsLeft ++ [binary op l r]
  | call f t => if (call f t).fold.isNumber then [call f t] else t.partsLeft ++ [call f t]

/-- The parts of the folded tree are those left in place, each of them folded. -/
theorem parts_fold (t : Tree F) : t.fold.parts = t.partsLeft.map fold := by
  induction t with
  | number v => rfl
  | var => rfl
  | neg t ih =>
      rw [partsLeft]
      split
      · next folded => exact parts_of_isNumber folded
      · next kept =>
          have eq := fold_neg_of_not_isNumber kept
          rw [List.map_append, List.map_singleton, ← ih, eq]
          rfl
  | binary op l r ihl ihr =>
      rw [partsLeft]
      split
      · next folded => exact parts_of_isNumber folded
      · next kept =>
          have eq := fold_binary_of_not_isNumber kept
          rw [List.map_append, List.map_append, List.map_singleton, ← ihl, ← ihr, eq]
          rfl
  | call f t ih =>
      rw [partsLeft]
      split
      · next folded => exact parts_of_isNumber folded
      · next kept =>
          have eq := fold_call_of_not_isNumber kept
          rw [List.map_append, List.map_singleton, ← ih, eq]
          rfl

/-! ## Constant parts -/

theorem foldedBinary_of_ok {op : Operator} {a b x v : F} (h : operatorAt x op a b = .ok v) :
    foldedBinary op (number a) (number b) = number v := by
  have computed : operatorAt Arith.zero op a b = .ok v :=
    (portable_operatorAt op a b x v h).2 Arith.zero
  rw [foldedBinary, operate_self, computed]

theorem foldedCall_of_ok {f : Elementary} {a x v : F} (h : callAt x f a = .ok v) :
    foldedCall f (number a) = number v := by
  have computed : callAt Arith.zero f a = .ok v := (portable_callAt f a x v h).2 Arith.zero
  rw [foldedCall, apply_self, computed]

/-- A constant part with a value is replaced by that value.  Each operator in it finds two numbers,
because both operands have values and are replaced by them. -/
theorem fold_of_value {t : Tree F} (constant : t.isConstant) {x v : F} (h : t.value x = .ok v) :
    t.fold = number v := by
  induction t generalizing v with
  | number c =>
      cases h
      rfl
  | var => cases constant
  | neg t ih =>
      obtain ⟨a, operand, h⟩ := bind_eq_ok.mp h
      rw [fold, ih constant operand]
      unfold finiteAt at h
      split at h
      · cases h
        rfl
      · cases h
  | binary op l r ihl ihr =>
      obtain ⟨constantLeft, constantRight⟩ := Bool.and_eq_true_iff.mp constant
      obtain ⟨a, left, h⟩ := bind_eq_ok.mp h
      obtain ⟨b, right, h⟩ := bind_eq_ok.mp h
      rw [fold, ihl constantLeft left, ihr constantRight right]
      exact foldedBinary_of_ok h
  | call f t ih =>
      obtain ⟨a, argument, h⟩ := bind_eq_ok.mp h
      rw [fold, ih constant argument]
      exact foldedCall_of_ok h

/-- A second folding changes nothing. -/
theorem fold_fold (t : Tree F) : t.fold.fold = t.fold := by
  induction t with
  | number v => rfl
  | var => rfl
  | neg t ih =>
      rw [fold]
      rcases foldedNeg_cases t.fold with eq | ⟨v, -, eq⟩
      · rw [eq, fold, ih, eq]
      · rw [eq, fold]
  | binary op l r ihl ihr =>
      rw [fold]
      rcases foldedBinary_cases op l.fold r.fold with eq | ⟨a, b, v, -, -, -, eq⟩
      · rw [eq, fold, ihl, ihr, eq]
      · rw [eq, fold]
  | call f t ih =>
      rw [fold]
      rcases foldedCall_cases f t.fold with eq | ⟨a, v, -, -, eq⟩
      · rw [eq, fold, ih, eq]
      · rw [eq, fold]

/-- Of the constant parts of a folded tree only numbers have values. -/
theorem eq_number_of_mem_parts_fold {t u : Tree F} (part : u ∈ t.fold.parts)
    (constant : u.isConstant) {x v : F} (h : u.value x = .ok v) : u = number v := by
  rw [parts_fold] at part
  obtain ⟨w, -, rfl⟩ := List.mem_map.mp part
  rw [← fold_fold w]
  exact fold_of_value constant h

end Formula.Tree

/-! ## Powers -/

/-- An instruction that raises a base to a power. -/
def Instr.isPower : Instr F → Bool
  | binary .pow | powConst _ => true
  | binary .add | binary .sub | binary .mul | binary .div | const _ | var | neg | call _ => false

/-- What the instruction for a power owes to its exponent: the exponent comes from the stack only
if it varies or is undefined, and otherwise the instruction has its value. -/
structure Instr.Raises [Arith F] (exponent : Formula.Tree F) (i : Instr F) : Prop where
  varies : i = binary .pow → exponent.isConstant → ∀ x, ∃ e, exponent.value x = .error e
  constant : exponent.isConstant → ∀ x n, exponent.value x = .ok n → i = powConst n

namespace Formula.Tree

/-- The base and the exponent of a power. -/
def power? : Tree F → Option (Tree F × Tree F)
  | binary .pow base exponent => some (base, exponent)
  | _ => none

/-- The instruction that a power is written out with, behind its operands. -/
def raise? : Tree F → Option (Instr F)
  | binary .pow _ (number n) => some (.powConst n)
  | binary .pow _ _ => some (.binary .pow)
  | _ => none

/-- The powers of a tree are its instructions that raise. -/
theorem filter_isPower_code (t : Tree F) :
    t.code.filter Instr.isPower = t.parts.filterMap raise? := by
  fun_induction code t with
  | case1 v => rfl
  | case2 => rfl
  | case3 t ih =>
      rw [parts, List.filter_append, List.filterMap_append, ih]
      rfl
  | case4 l n ih =>
      rw [parts, List.filter_append, List.filterMap_append, List.filterMap_append, ih,
        List.append_assoc]
      rfl
  | case5 op l r varying ihl ihr =>
      rw [parts, List.filter_append, List.filter_append, List.filterMap_append,
        List.filterMap_append, ihl, ihr]
      congr 1
      cases op with
      | add | sub | mul | div => rfl
      | pow =>
          cases r with
          | number n => exact (varying n rfl rfl).elim
          | var | neg | binary | call => rfl
  | case6 f t ih =>
      rw [parts, List.filter_append, List.filterMap_append, ih]
      rfl

/-- The code of a part stands in one piece in the code of the tree.  Numbers are left out, because
those that are exponents have no code of their own. -/
theorem code_within {t u : Tree F} (part : u ∈ t.parts) (other : ¬ u.isNumber) :
    u.code <:+: t.code := by
  fun_induction code t with
  | case1 v =>
      obtain rfl := List.mem_singleton.mp part
      exact absurd rfl other
  | case2 =>
      obtain rfl := List.mem_singleton.mp part
      exact List.infix_rfl
  | case3 t ih =>
      rcases List.mem_append.mp part with inside | self
      · exact (ih inside).trans (List.prefix_append _ _).isInfix
      · obtain rfl := List.mem_singleton.mp self
        exact List.infix_rfl
  | case4 l n ih =>
      rcases List.mem_append.mp part with inside | self
      · rcases List.mem_append.mp inside with inside | exponent
        · exact (ih inside).trans (List.prefix_append _ _).isInfix
        · obtain rfl := List.mem_singleton.mp exponent
          exact absurd rfl other
      · obtain rfl := List.mem_singleton.mp self
        exact List.infix_rfl
  | case5 op l r varying ihl ihr =>
      rcases List.mem_append.mp part with inside | self
      · rcases List.mem_append.mp inside with inside | inside
        · refine (ihl inside).trans ?_
          rw [List.append_assoc]
          exact (List.prefix_append _ _).isInfix
        · exact (ihr inside).trans (List.infix_append _ _ _)
      · obtain rfl := List.mem_singleton.mp self
        rw [code.eq_5 op l r varying]
  | case6 f t ih =>
      rcases List.mem_append.mp part with inside | self
      · exact (ih inside).trans (List.prefix_append _ _).isInfix
      · obtain rfl := List.mem_singleton.mp self
        exact List.infix_rfl

variable [Arith F]

/-- The powers that are not folded away, in the order in which they are written out. -/
def powersLeft (t : Tree F) : List (Tree F × Tree F) :=
  t.partsLeft.filterMap fun u ↦ if u.fold.isNumber then none else u.power?

/-- A power whose exponent is folded has an instruction that raises. -/
theorem exists_raises (base exponent : Tree F) :
    ∃ i, (binary .pow base exponent.fold).raise? = some i ∧ Instr.Raises exponent i := by
  cases folded : exponent.fold with
  | number n =>
      refine ⟨.powConst n, rfl, ?_, ?_⟩
      · intro h
        cases h
      · intro constant x m value
        cases folded.symm.trans (fold_of_value constant value)
        rfl
  | var | neg | binary | call =>
      have undefined (constant : exponent.isConstant) (x n : F) : exponent.value x ≠ .ok n := by
        intro value
        cases folded.symm.trans (fold_of_value constant value)
      refine ⟨.binary .pow, rfl, ?_, ?_⟩
      · intro _ constant x
        cases value : exponent.value x with
        | ok n => exact absurd value (undefined constant x n)
        | error e => exact ⟨e, rfl⟩
      · intro constant x n value
        exact absurd value (undefined constant x n)

/-- A part that is a power and is not folded away has an instruction that raises, and no other part
has one. -/
theorem raises_fold (u : Tree F) :
    Option.Rel (fun power i ↦ Instr.Raises power.2 i)
      (if u.fold.isNumber then none else u.power?) u.fold.raise? := by
  split
  · next folded =>
      cases number : u.fold with
      | number v => exact .none
      | var | neg | binary | call =>
          rw [number] at folded
          cases folded
  · next kept =>
      cases u with
      | number v => exact absurd rfl kept
      | var => exact .none
      | neg t =>
          rw [fold_neg_of_not_isNumber kept]
          exact .none
      | call f t =>
          rw [fold_call_of_not_isNumber kept]
          exact .none
      | binary op l r =>
          rw [fold_binary_of_not_isNumber kept]
          cases op with
          | add | sub | mul | div => exact .none
          | pow =>
              obtain ⟨i, raise, raises⟩ := exists_raises l.fold r
              rw [raise]
              exact .some raises

/-- The powers that are not folded away are the instructions that raise, one for one. -/
theorem forall₂_raises (t : Tree F) :
    List.Forall₂ (fun power i ↦ Instr.Raises power.2 i) t.powersLeft
      (t.fold.code.filter Instr.isPower) := by
  rw [filter_isPower_code, parts_fold, List.filterMap_map, powersLeft]
  refine List.rel_filterMap (R := Eq) ?_ (List.forall₂_refl _)
  rintro u _ rfl
  exact raises_fold u

/-- A power that is not folded away is still there in the folded tree. -/
theorem pow_mem_parts_fold {t base exponent : Tree F} (left : (base, exponent) ∈ t.powersLeft) :
    binary .pow base.fold exponent.fold ∈ t.fold.parts := by
  obtain ⟨u, part, power⟩ := List.mem_filterMap.mp left
  split at power
  · cases power
  · next kept =>
      fun_cases power? u with
      | case1 base' exponent' =>
          cases power
          rw [parts_fold, ← fold_binary_of_not_isNumber kept]
          exact List.mem_map_of_mem part
      | case2 u other =>
          rw [power?.eq_2 u other] at power
          cases power

end Formula.Tree

/-- In the dual pass a constant exponent is dealt with by the power rule, whatever the sign of the
base. -/
theorem Machine.run_powConst [Arith F] {x a : Dual F} {code : List (Instr F)}
    {stack : List (Dual F)} (base : run x code stack = .ok (a :: stack)) (n : F) :
    run x (code ++ [.powConst n]) stack =
      leave stack (finite x.re (if Arith.isZero n then ⟨Arith.one, Arith.zero⟩
        else ⟨Arith.pow a.re n, n * Arith.pow a.re (n - Arith.one) * a.eps⟩ : Dual F)) := by
  rw [run_append, base]
  change leave stack (finite x.re (a.powConst n)) >>= Except.ok = _
  exact bind_pure _

namespace Formula.Tree

variable [Arith F]

/-- Folding reaches a normal form.  Every constant part with a value becomes the number with that
value, every part outside of what becomes a number stays in its place, of the constant parts that
are left only numbers have values, and a second folding changes nothing.

In the compiled program each power that is not folded away has one instruction that raises, in the
same order.  It takes the exponent from the stack only if that varies or is undefined.  Otherwise it
has the value of the exponent in it and follows the code of the base, and the dual pass applies the
power rule there to whatever the base is: it goes on if the power and its slope are finite. -/
theorem fold_normal (t : Tree F) :
    (∀ u ∈ t.parts, u.isConstant → ∀ x v, u.value x = .ok v → u.fold = number v) ∧
      t.fold.parts = t.partsLeft.map fold ∧
      (∀ u ∈ t.fold.parts, u.isConstant → ∀ x v, u.value x = .ok v → u = number v) ∧
      t.fold.fold = t.fold ∧
      ∀ p, Program.ofTree t = .ok p →
        List.Forall₂ (fun power i ↦ Instr.Raises power.2 i) t.powersLeft
          (p.code.filter Instr.isPower) ∧
        ∀ base exponent, (base, exponent) ∈ t.powersLeft → exponent.isConstant →
          ∀ y n, exponent.value y = .ok n →
            base.fold.code ++ [.powConst n] <:+: p.code ∧
            ∀ (x a : Dual F) (stack : List (Dual F)),
              Machine.run x base.fold.code stack = .ok (a :: stack) →
                Machine.run x (base.fold.code ++ [.powConst n]) stack =
                  Machine.leave stack
                    (Machine.finite x.re (if Arith.isZero n then ⟨Arith.one, Arith.zero⟩
                      else ⟨Arith.pow a.re n, n * Arith.pow a.re (n - Arith.one) * a.eps⟩ :
                        Dual F)) := by
  refine ⟨fun u _ constant x v ↦ fold_of_value constant, parts_fold t, ?_, fold_fold t, ?_⟩
  · exact fun u part constant x v ↦ eq_number_of_mem_parts_fold part constant
  · intro p compiled
    obtain ⟨rfl, -⟩ := Program.ofTree_eq_ok compiled
    refine ⟨forall₂_raises t, ?_⟩
    intro base exponent left constant y n value
    have part := pow_mem_parts_fold left
    rw [fold_of_value constant value] at part
    exact ⟨code_within part Bool.false_ne_true, fun x a stack ran ↦ Machine.run_powConst ran n⟩

/-- The tree of `(x - 2 * 3) ^ (1 - 3) + x ^ (1 / 0)`, in which the last exponent has no value. -/
def undefinedExponent : Tree Float :=
  .binary .add
    (.binary .pow (.binary .sub .var (.binary .mul (.number 2) (.number 3)))
      (.binary .sub (.number 1) (.number 3)))
    (.binary .pow .var (.binary .div (.number 1) (.number 0)))

/-- On doubles, an exponent that becomes part of its instruction and one that does not.  At one the
base of the first is negative. -/
theorem fold_normal_undefinedExponent :
    ∃ p, Program.ofTree undefinedExponent = .ok p ∧
      p.code.filter Instr.isPower = [.powConst (-2), .binary .pow] ∧
      [.var, .const 6, .binary .sub, .powConst (-2)] <:+: p.code ∧
      Machine.run (F := Float) (⟨1, 1⟩ : Dual Float)
          [.var, .const 6, .binary .sub, .powConst (-2)] [] =
        Machine.leave [] (Machine.finite (F := Float) 1
          (⟨Float.pow (-5) (-2), -2 * Float.pow (-5) (-2 - 1) * 1⟩ : Dual Float)) := by
  have compiled : Program.ofTree undefinedExponent = .ok ⟨[.var, .const 6, .binary .sub,
      .powConst (-2), .var, .const 1, .const 0, .binary .div, .binary .pow, .binary .add], 4⟩ := by
    decide +kernel
  obtain ⟨-, -, -, -, powers⟩ := fold_normal undefinedExponent
  obtain ⟨-, constant⟩ := powers _ compiled
  obtain ⟨infixed, ran⟩ := constant (.binary .sub .var (.binary .mul (.number 2) (.number 3)))
    (.binary .sub (.number 1) (.number 3)) (by decide +kernel) rfl 0 (-2) (by decide +kernel)
  have base : (binary .sub .var (.binary .mul (.number 2) (.number 3))).fold.code =
      [.var, .const (6 : Float), .binary .sub] := by decide +kernel
  rw [base] at infixed ran
  have nonzero : ¬ Arith.isZero (-2 : Float) := by decide
  have power := ran (⟨1, 1⟩ : Dual Float) (⟨-5, 1⟩ : Dual Float) [] (by decide +kernel)
  rw [if_neg nonzero] at power
  exact ⟨_, compiled, by decide +kernel, infixed, power⟩

end Formula.Tree

end ScalarSolve
