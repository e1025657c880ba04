import ScalarSolve.Arith.Double
import ScalarSolve.Expression
import ScalarSolve.Proofs.Program.Simulation

/-!
# The value in the dual pass

Evaluation over dual numbers gives a value along with the derivative.  No check and no value ever
looks at a derivative, so these values are those of an evaluation of their own, over the *shadows*
of dual numbers.  It differs from evaluation over plain numbers in three operations, for which dual
numbers have formulas of their own: a quotient is a product by the reciprocal, a tangent is such a
quotient, and a varying power goes by the logarithm.  Each of them may round differently, and then
the two values differ too.
-/

namespace ScalarSolve

open Formula

variable {F : Type} [Arith F]

/-! ## Shadows -/

/-- The value of a dual number, with the operations that dual numbers apply to their values. -/
structure Dual.Shadow (F : Type) where
  re : F
deriving DecidableEq, Repr

namespace Dual

instance : Scalar F (Shadow F) where
  constant c := ⟨c⟩
  value a := a.re
  isFinite a := Arith.isFinite a.re
  add a b := ⟨a.re + b.re⟩
  sub a b := ⟨a.re - b.re⟩
  mul a b := ⟨a.re * b.re⟩
  div a b := ⟨a.re * (Arith.one / b.re)⟩
  neg a := ⟨-a.re⟩
  sin a := ⟨Arith.sin a.re⟩
  cos a := ⟨Arith.cos a.re⟩
  tan a := ⟨Arith.sin a.re * (Arith.one / Arith.cos a.re)⟩
  exp a := ⟨Arith.exp a.re⟩
  log a := ⟨Arith.log a.re⟩
  sqrt a := ⟨Arith.sqrt a.re⟩
  abs a := ⟨Arith.abs a.re⟩
  powConst a n := ⟨if Arith.isZero n then Arith.one else Arith.pow a.re n⟩
  pow a b := ⟨Arith.exp (Arith.log a.re * b.re)⟩

def shadow (a : Dual F) : Shadow F := ⟨a.re⟩

theorem isProjection_shadow : Scalar.IsProjection (F := F) (shadow (F := F)) where
  constant _ := rfl
  value _ := rfl
  finite _ h := (Bool.and_eq_true_iff.mp h).1

theorem re_powConst (a : Dual F) (n : F) :
    (a.powConst n).re = if Arith.isZero n then Arith.one else Arith.pow a.re n := by
  unfold powConst
  split <;> rfl

/-- Every operation on dual numbers commutes with taking shadows. -/
theorem commutes_shadow (i : Instr F) (stack : List (Dual F)) : i.Commutes shadow stack := by
  cases i with
  | const c => trivial
  | var => trivial
  | binary op =>
      match stack with
      | b :: a :: _ => cases op <;> rfl
      | [] | [_] => trivial
  | powConst n =>
      match stack with
      | a :: _ => exact congrArg Shadow.mk (re_powConst a n)
      | [] => trivial
  | neg =>
      match stack with
      | a :: _ => rfl
      | [] => trivial
  | call f =>
      match stack with
      | a :: _ => cases f <;> rfl
      | [] => trivial

end Dual

/-- The evaluation over shadows goes along with the dual pass, whatever the derivative. -/
theorem Expression.follows_shadow (e : Expression F) (x s : F) :
    Machine.Follows Dual.shadow (e.evalScalar (⟨x, s⟩ : Dual F))
      (e.evalScalar (⟨x⟩ : Dual.Shadow F)) :=
  e.program.follows_execute Dual.isProjection_shadow ⟨x, s⟩
    (Machine.along_of_forall (fun i _ _ s _ ↦ Dual.commutes_shadow i s) [])

/-! ## Plain numbers -/

/-- The formulas of dual numbers and those of plain numbers give the same value to an instruction
with these operands. -/
def Instr.Agrees : Instr F → List F → Prop
  | .binary .div, b :: a :: _ => a * (Arith.one / b) = a / b
  | .binary .pow, b :: a :: _ => Arith.exp (Arith.log a * b) = Arith.pow a b
  | .powConst n, a :: _ => Arith.isZero n → Arith.pow a n = Arith.one
  | .call .tan, a :: _ => Arith.sin a * (Arith.one / Arith.cos a) = Arith.tan a
  | _, _ => True

namespace Dual

theorem isProjection_re : Scalar.IsProjection (F := F) (re (F := F)) where
  constant _ := rfl
  value _ := rfl
  finite _ h := (Bool.and_eq_true_iff.mp h).1

/-- Where the formulas agree, the operation commutes with taking values. -/
theorem commutes_re {i : Instr F} {stack : List (Dual F)} (agrees : i.Agrees (stack.map re)) :
    i.Commutes re stack := by
  cases i with
  | const c => trivial
  | var => trivial
  | binary op =>
      match stack with
      | b :: a :: _ =>
          cases op with
          | add | sub | mul => rfl
          | div | pow => exact agrees
      | [] | [_] => trivial
  | powConst n =>
      match stack with
      | a :: _ =>
          change (a.powConst n).re = Arith.pow a.re n
          rw [re_powConst]
          split
          · next zero => exact (agrees zero).symm
          · rfl
      | [] => trivial
  | neg =>
      match stack with
      | a :: _ => rfl
      | [] => trivial
  | call f =>
      match stack with
      | a :: _ =>
          cases f with
          | tan => exact agrees
          | sin | cos | exp | log | sqrt | abs => rfl
      | [] => trivial

end Dual

instance Instr.decidableAgrees [DecidableEq F] :
    (i : Instr F) → (stack : List F) → Decidable (i.Agrees stack)
  | .binary .div, b :: a :: _ => inferInstanceAs (Decidable (a * (Arith.one / b) = a / b))
  | .binary .pow, b :: a :: _ =>
    inferInstanceAs (Decidable (Arith.exp (Arith.log a * b) = Arith.pow a b))
  | .powConst n, a :: _ =>
    inferInstanceAs (Decidable (Arith.isZero n → Arith.pow a n = Arith.one))
  | .call .tan, a :: _ =>
    inferInstanceAs (Decidable (Arith.sin a * (Arith.one / Arith.cos a) = Arith.tan a))
  -- too few operands
  | .binary .div, [] | .binary .div, [_] | .binary .pow, [] | .binary .pow, [_]
  | .powConst _, [] | .call .tan, [] => isTrue trivial
  -- the same formula on both sides
  | .binary .add, _ | .binary .sub, _ | .binary .mul, _ | .const _, _ | .var, _ | .neg, _
  | .call .sin, _ | .call .cos, _ | .call .exp, _ | .call .log, _ | .call .sqrt, _
  | .call .abs, _ => isTrue trivial

/-- Away from quotients, tangents and varying powers the formulas are the same but for one thing:
over dual numbers, what is raised to zero is one. -/
theorem Instr.agrees_of_ne (pow_zero : ∀ a n : F, Arith.isZero n → Arith.pow a n = Arith.one)
    {i : Instr F} (other : i ≠ .binary .div ∧ i ≠ .binary .pow ∧ i ≠ .call .tan)
    (stack : List F) : i.Agrees stack := by
  obtain ⟨noQuotient, noPower, noTangent⟩ := other
  fun_cases Instr.Agrees i stack with
  | case1 => exact absurd rfl noQuotient
  | case2 => exact absurd rfl noPower
  | case3 n a => exact pow_zero a n
  | case4 => exact absurd rfl noTangent
  | case5 => trivial

namespace Expression

/-- Where the formulas agree on all that plain evaluation meets, it goes along with the dual
pass. -/
theorem follows_re (e : Expression F) (x s : F)
    (agrees : Machine.Along Instr.Agrees x e.program.code []) :
    Machine.Follows Dual.re (e.evalScalar (⟨x, s⟩ : Dual F)) (e.eval x) := by
  refine e.program.follows_execute Dual.isProjection_re ⟨x, s⟩ (agrees.imp ?_)
  rintro i _ agrees stack rfl
  exact Dual.commutes_re agrees

/-- Without quotients, tangents and varying powers, evaluation over dual numbers simulates plain
evaluation: it has the same value, it has none where there is none, and it fails for the same reason
or because some number is not finite, perhaps a derivative.  Of arithmetic only this is used, that
anything raised to zero is one. -/
theorem evalScalar_simulates (pow_zero : ∀ a n : F, Arith.isZero n → Arith.pow a n = Arith.one)
    (e : Expression F)
    (other : ∀ i ∈ e.program.code, i ≠ .binary .div ∧ i ≠ .binary .pow ∧ i ≠ .call .tan)
    (x s : F) :
    (∀ v d, e.evalScalar (⟨x, s⟩ : Dual F) = .ok ⟨v, d⟩ → e.eval x = .ok v) ∧
      (∀ err, e.eval x = .error err → ∃ err', e.evalScalar (⟨x, s⟩ : Dual F) = .error err') ∧
      ∀ err, e.evalScalar (⟨x, s⟩ : Dual F) = .error err →
        (∀ y, err ≠ .undefined (.nonFinite y)) → e.eval x = .error err := by
  have follows := e.follows_re x s <|
    Machine.along_of_forall (fun i mem ↦ Instr.agrees_of_ne pow_zero (other i mem)) []
  refine ⟨?_, ?_, ?_⟩
  · intro v d value
    exact (value ▸ follows).ok
  · intro err failure
    exact (failure ▸ follows).exists_error
  · intro err failure finite
    exact (failure ▸ follows).error finite

/-- Doubles, with the rule for the exponent zero written out. -/
@[reducible] def zeroPowers : Arith Float :=
  { (inferInstance : Arith Float) with
    pow := fun a n ↦ if n == 0 then 1 else Float.pow a n }

/-- What `x^0+sqrt(x)` compiles to. -/
def unitAndRoot : Expression Float :=
  ⟨"x^0+sqrt(x)", ⟨[.var, .powConst 0, .var, .call .sqrt, .binary .add], 2⟩⟩

/-- On these doubles, with two for the derivative of the variable: a value, a failure of both
evaluations, and an infinite slope at which only the dual pass fails. -/
theorem evalScalar_simulates_unitAndRoot :
    letI := zeroPowers
    compile "x^0+sqrt(x)" = .ok unitAndRoot ∧
      unitAndRoot.evalScalar (⟨4, 2⟩ : Dual Float) = .ok ⟨3, 0.5⟩ ∧ unitAndRoot.eval 4 = .ok 3 ∧
      unitAndRoot.evalScalar (⟨-4, 2⟩ : Dual Float) =
        .error (.undefined (.sqrtNegative (-4) (-4))) ∧
      unitAndRoot.eval (-4) = .error (.undefined (.sqrtNegative (-4) (-4))) ∧
      unitAndRoot.evalScalar (⟨0, 2⟩ : Dual Float) = .error (.undefined (.nonFinite 0)) ∧
      unitAndRoot.eval 0 = .ok 1 := by
  let := zeroPowers
  have pow_zero (a n : Float) (zero : Arith.isZero n) : Arith.pow a n = Arith.one := if_pos zero
  have simulates := evalScalar_simulates pow_zero unitAndRoot (by decide)
  have value : unitAndRoot.evalScalar (⟨4, 2⟩ : Dual Float) = .ok ⟨3, 0.5⟩ := by decide +kernel
  have failure : unitAndRoot.evalScalar (⟨-4, 2⟩ : Dual Float) =
      .error (.undefined (.sqrtNegative (-4) (-4))) := by decide +kernel
  exact ⟨by decide +kernel, value, (simulates 4 2).1 _ _ value, failure,
    (simulates (-4) 2).2.2 _ failure (by simp), by decide +kernel, by decide +kernel⟩

/-- The value in the dual pass is the value over shadows, whatever the expression and the point.  It
is the plain value wherever the two sets of formulas agree on the operands that plain evaluation
meets. -/
theorem value_evalDual (e : Expression F) (x : F) {v d : F} (h : e.evalDual x = .ok ⟨v, d⟩) :
    e.evalScalar (⟨x⟩ : Dual.Shadow F) = .ok ⟨v⟩ ∧
      (Machine.Along Instr.Agrees x e.program.code [] → e.eval x = .ok v) := by
  have value : e.evalScalar (⟨x, Arith.one⟩ : Dual F) = .ok ⟨v, d⟩ := h
  refine ⟨?_, ?_⟩
  · exact (value ▸ e.follows_shadow x Arith.one).ok
  · intro agrees
    exact (value ▸ e.follows_re x Arith.one agrees).ok

/-- What `(1-x)/4` compiles to. -/
def quarterOfRest : Expression Float :=
  ⟨"(1-x)/4", ⟨[.const 1, .var, .binary .sub, .const 4, .binary .div], 2⟩⟩

/-- On doubles, division by four rounds like multiplication by a quarter. -/
theorem value_evalDual_quarterOfRest :
    compile "(1-x)/4" = .ok quarterOfRest ∧ quarterOfRest.evalDual 3 = .ok ⟨-0.5, -0.25⟩ ∧
      Machine.Along Instr.Agrees 3 quarterOfRest.program.code [] ∧
      quarterOfRest.eval 3 = .ok (-0.5) := by
  have value : quarterOfRest.evalDual 3 = .ok ⟨-0.5, -0.25⟩ := by decide +kernel
  have agrees : Machine.Along Instr.Agrees 3 quarterOfRest.program.code [] := by decide +kernel
  exact ⟨by decide +kernel, value, agrees, (value_evalDual _ 3 value).2 agrees⟩

/-- On doubles, division by three rounds other than multiplication by a third: the dual pass and
plain evaluation have different values for the same quotient. -/
theorem value_evalDual_third :
    ∃ e : Expression Float, compile "x/3" = .ok e ∧
      ∃ v d w, e.evalDual 5 = .ok ⟨v, d⟩ ∧ e.eval 5 = .ok w ∧ v.toBits ≠ w.toBits := by
  have compiled : compile "x/3" =
      .ok (⟨"x/3", ⟨[.var, .const 3, .binary .div], 2⟩⟩ : Expression Float) := by
    decide +kernel
  refine ⟨_, compiled, 5 * (1 / 3), 3 * (1 / 3) * (1 / 3), 5 / 3, ?_, ?_, ?_⟩
  · decide +kernel
  · decide +kernel
  · decide +kernel

end Expression

end ScalarSolve
