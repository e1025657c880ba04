import ScalarSolve.Program.Basic
import ScalarSolve.Formula.SyntaxError

/-!
# Compiling formulas

A tree is folded, so that constant parts that have a value become that value, and then written out
operands first.  Constant parts without a value stay, and fail when the program gets to them.
-/

namespace ScalarSolve

open Formula

namespace Formula.Tree

variable {F : Type} [Arith F]

/-- A negation, of a number at once. -/
def foldedNeg : Tree F → Tree F
  | number v => number (-v)
  | t => neg t

/-- An operator, between numbers at once if it has a value. -/
def foldedBinary (op : Operator) (l r : Tree F) : Tree F :=
  match l, r with
  | number a, number b =>
    match Machine.operate (Arith.zero : F) op a b with
    | .ok v => number v
    | .error _ => binary op l r
  | _, _ => binary op l r

/-- A call, on a number at once if it has a value. -/
def foldedCall (f : Elementary) (t : Tree F) : Tree F :=
  match t with
  | number a =>
    match Machine.apply (Arith.zero : F) f a with
    | .ok v => number v
    | .error _ => call f t
  | _ => call f t

/-- The tree with every constant part that has a value replaced by it. -/
def fold : Tree F → Tree F
  | number v => number v
  | var => var
  | neg t => foldedNeg t.fold
  | binary op l r => foldedBinary op l.fold r.fold
  | call f t => foldedCall f t.fold

/-- The code of a tree, operands first. -/
def code : Tree F → List (Instr F)
  | number v => [.const v]
  | var => [.var]
  | neg t => t.code ++ [.neg]
  | binary .pow l (number n) => l.code ++ [.powConst n]
  | binary op l r => l.code ++ r.code ++ [.binary op]
  | call f t => t.code ++ [.call f]

end Formula.Tree

namespace Program

variable {F : Type} [Arith F]

/-- The program of a tree, unless it needs too deep a stack. -/
def ofTree (t : Formula.Tree F) : Except (SyntaxError F) (Program F) :=
  let code := t.fold.code
  let depth := Instr.peakFrom 0 code
  if maxStackDepth < depth then .error (.unplaced (.stackTooDeep depth)) else .ok ⟨code, depth⟩

end Program

end ScalarSolve
