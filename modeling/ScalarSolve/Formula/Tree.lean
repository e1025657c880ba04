import ScalarSolve.Arith

/-! # Formula trees -/

namespace ScalarSolve.Formula

/-- The operators between two operands. -/
inductive Operator where
  | add
  | sub
  | mul
  | div
  | pow
deriving DecidableEq, Repr

/-- The functions of one argument that a formula may call. -/
inductive Elementary where
  | sin
  | cos
  | tan
  | exp
  | log
  | sqrt
  | abs
deriving DecidableEq, Repr

namespace Elementary

/-- The function with a name in formulas; the logarithm has two. -/
def ofName? : String → Option Elementary
  | "sin" => some sin
  | "cos" => some cos
  | "tan" => some tan
  | "exp" => some exp
  | "log" => some log
  | "ln" => some log
  | "sqrt" => some sqrt
  | "abs" => some abs
  | _ => none

end Elementary

/-- A formula over the single variable `x`, with numbers in `F`. -/
inductive Tree (F : Type) where
  | number (value : F)
  | var
  | neg (operand : Tree F)
  | binary (op : Operator) (left right : Tree F)
  | call (f : Elementary) (argument : Tree F)
deriving DecidableEq, Repr

namespace Tree

variable {F : Type}

/-- The number of nodes. -/
def size : Tree F → Nat
  | number _ | var => 1
  | neg t | call _ t => t.size + 1
  | binary _ l r => l.size + r.size + 1

/-- The leaf that stands for a name, if the name is the variable or a constant. -/
def ofName? [Arith F] : String → Option (Tree F)
  | "x" => some var
  | "pi" => some (number Arith.pi)
  | "e" => some (number Arith.e)
  | _ => none

end Tree

end ScalarSolve.Formula
