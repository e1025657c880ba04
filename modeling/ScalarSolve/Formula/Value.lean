import ScalarSolve.Formula.Tree
import ScalarSolve.Formula.EvalError

/-!
# Values of formulas

What a formula means at a point.  Operands have their values from left to right, and the first part
without a value leaves the whole without one.  Programs are another way to the same values.
-/

namespace ScalarSolve.Formula.Tree

variable {F : Type} [Arith F]

/-- A computed number, if it is finite. -/
def finiteAt (x v : F) : Except (EvalError F) F :=
  if Arith.isFinite v then .ok v else .error (.nonFinite x)

/-- The value of an operator between two numbers, in a formula at `x`. -/
def operatorAt (x : F) (op : Operator) (a b : F) : Except (EvalError F) F :=
  match op with
  | .add => finiteAt x (a + b)
  | .sub => finiteAt x (a - b)
  | .mul => finiteAt x (a * b)
  | .div => if Arith.isZero b then .error (.divisionByZero x) else finiteAt x (a / b)
  | .pow => finiteAt x (Arith.pow a b)

/-- The value of a function of a number, in a formula at `x`. -/
def callAt (x : F) (f : Elementary) (a : F) : Except (EvalError F) F :=
  match f with
  | .sin => finiteAt x (Arith.sin a)
  | .cos => finiteAt x (Arith.cos a)
  | .tan => finiteAt x (Arith.tan a)
  | .exp => finiteAt x (Arith.exp a)
  | .log =>
    if Arith.le a Arith.zero then .error (.logNonPositive x a) else finiteAt x (Arith.log a)
  | .sqrt =>
    if Arith.isNegative a then .error (.sqrtNegative x a) else finiteAt x (Arith.sqrt a)
  | .abs => finiteAt x (Arith.abs a)

/-- The value of a tree where the variable is `x`. -/
def value (x : F) : Tree F → Except (EvalError F) F
  | number v => .ok v
  | var => .ok x
  | neg t => do finiteAt x (-(← t.value x))
  | binary op l r => do
    let a ← l.value x
    let b ← r.value x
    operatorAt x op a b
  | call f t => do callAt x f (← t.value x)

/-- The value at a point, which has to be finite. -/
def valueAt (t : Tree F) (x : F) : Except (EvalError F) F :=
  if Arith.isFinite x then t.value x else .error (.nonFinite x)

end ScalarSolve.Formula.Tree
