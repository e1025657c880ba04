import ScalarSolve.Scalar
import ScalarSolve.Formula.Tree
import ScalarSolve.Formula.EvalError

/-!
# Programs of the stack machine

A program is straight-line code.  Each instruction takes its operands from the top of a bounded
value stack and pushes one value.  Results of operators and functions have to be finite; constants
are pushed as they are.

That a formula is undefined at a point is an answer, and whoever has asked goes on from there.  At
an end of the stack there is no answer: the machine stops, and with it all that the evaluation is
part of.
-/

namespace ScalarSolve

open Formula

/-- An instruction of the stack machine. -/
inductive Instr (F : Type) where
  | const (value : F)
  | var
  | binary (op : Operator)
  /-- A power with a constant exponent. -/
  | powConst (exponent : F)
  | neg
  | call (f : Elementary)
deriving DecidableEq, Repr

/-- Code, with the height that the value stack reaches in it. -/
structure Program (F : Type) where
  code : List (Instr F)
  depth : Nat
deriving DecidableEq, Repr

/-- The height that the value stack can have. -/
def stackCapacity : Nat := 128

/-- What the machine stops at: a full stack, or one that lacks the operands of an instruction. -/
inductive StackFault where
  | full
  | empty
deriving DecidableEq, Repr

/-- Why an evaluation gives no value. -/
inductive Halt (F : Type) where
  | undefined (e : EvalError F)
  | fault (why : StackFault)
deriving DecidableEq, Repr

namespace Instr

variable {F S : Type}

/-- How many values an instruction takes from the stack. -/
def operands : Instr F → Nat
  | const _ | var => 0
  | binary _ => 2
  | powConst _ | neg | call _ => 1

/-- The height after an instruction that finds its operands on a stack of height `h`. -/
def heightAfter (i : Instr F) (h : Nat) : Nat := h - i.operands + 1

/-- The greatest height while code runs on a stack of height `h`. -/
def peakFrom (h : Nat) : List (Instr F) → Nat
  | [] => h
  | i :: code => max h (peakFrom (i.heightAfter h) code)

end Instr

namespace Machine

variable {F S : Type} [Arith F] [Scalar F S]

/-- A value that is computed at `x`, if it is finite. -/
def finite (x : F) (v : S) : Except (EvalError F) S :=
  if Scalar.isFinite F v then .ok v else .error (.nonFinite x)

/-- The value of an operator; a quotient by zero is undefined. -/
def operate (x : F) (op : Operator) (a b : S) : Except (EvalError F) S :=
  match op with
  | .add => finite x (Scalar.add F a b)
  | .sub => finite x (Scalar.sub F a b)
  | .mul => finite x (Scalar.mul F a b)
  | .div =>
    if Arith.isZero (Scalar.value b : F) then .error (.divisionByZero x)
    else finite x (Scalar.div F a b)
  | .pow => finite x (Scalar.pow F a b)

/-- The value of a function; logarithms and square roots have a domain. -/
def apply (x : F) (f : Elementary) (a : S) : Except (EvalError F) S :=
  match f with
  | .sin => finite x (Scalar.sin F a)
  | .cos => finite x (Scalar.cos F a)
  | .tan => finite x (Scalar.tan F a)
  | .exp => finite x (Scalar.exp F a)
  | .log =>
    if Arith.le (Scalar.value a) (Arith.zero : F) then
      .error (.logNonPositive x (Scalar.value a))
    else finite x (Scalar.log F a)
  | .sqrt =>
    if Arith.isNegative (Scalar.value a : F) then .error (.sqrtNegative x (Scalar.value a))
    else finite x (Scalar.sqrt F a)
  | .abs => finite x (Scalar.abs F a)

/-- A value on top of the stack, if there is room for it. -/
def push (v : S) (stack : List S) : Except (Halt F) (List S) :=
  if stack.length < stackCapacity then .ok (v :: stack) else .error (.fault .full)

/-- The stack with the result of an operator or a function on top, if it has one. -/
def leave (stack : List S) (result : Except (EvalError F) S) : Except (Halt F) (List S) :=
  match result with
  | .ok v => .ok (v :: stack)
  | .error e => .error (.undefined e)

/-- One instruction, with the variable at `x`. -/
def step (x : S) (stack : List S) (i : Instr F) : Except (Halt F) (List S) :=
  match i, stack with
  | .const c, stack => push (Scalar.constant c) stack
  | .var, stack => push x stack
  | .binary op, b :: a :: stack => leave stack (operate (Scalar.value x) op a b)
  | .powConst n, a :: stack => leave stack (finite (Scalar.value x : F) (Scalar.powConst a n))
  | .neg, a :: stack => leave stack (finite (Scalar.value x : F) (Scalar.neg F a))
  | .call f, a :: stack => leave stack (apply (Scalar.value x) f a)
  | _, _ => .error (.fault .empty)

/-- A run of code from a given stack. -/
def run (x : S) (code : List (Instr F)) (stack : List S) : Except (Halt F) (List S) :=
  code.foldlM (step x) stack

end Machine

namespace Program

variable {F S : Type}

/-- The number of instructions. -/
def size (p : Program F) : Nat := p.code.length

/-- The program for `x - α · p`. -/
def residualMap (α : F) (p : Program F) : Program F :=
  { code := [.var, .const α] ++ p.code ++ [.binary .mul, .binary .sub]
    depth := p.depth + 2 }

@[simp] theorem depth_residualMap (α : F) (p : Program F) :
    (p.residualMap α).depth = p.depth + 2 := rfl

@[simp] theorem size_residualMap (α : F) (p : Program F) :
    (p.residualMap α).size = p.size + 4 := by
  simp [residualMap, size]

variable [Arith F] [Scalar F S]

/-- The value that a program leaves at the bottom of the stack when the variable is the finite `x`.
A stack is filled with zeros before anything is pushed. -/
def execute (p : Program F) (x : S) : Except (Halt F) S :=
  if Scalar.isFinite F x then do
    let stack ← Machine.run x p.code []
    return stack.getLast?.getD (Scalar.constant (Arith.zero : F))
  else .error (.undefined (.nonFinite (Scalar.value x)))

end Program

end ScalarSolve
