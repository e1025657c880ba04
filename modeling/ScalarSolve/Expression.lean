import ScalarSolve.Curve
import ScalarSolve.Dual
import ScalarSolve.Formula.Parser
import ScalarSolve.Program.Compile
import ScalarSolve.Program.Fits
import ScalarSolve.Text.Blank

/-!
# Expressions

A compiled formula with the text it stands for.  An expression is compiled once and evaluated at
many points, over numbers or over dual numbers.  Searches and scans are given the curve of an
expression: that its program fits the stack is settled before the first evaluation.
-/

namespace ScalarSolve

open Formula

/-- A compiled formula over `x`. -/
structure Expression (F : Type) where
  /-- The text that the expression stands for, without blanks at its ends. -/
  source : String
  program : Program F
deriving DecidableEq, Repr

namespace Expression

variable {F S : Type} [Arith F]

def compile (text : String) : Except (SyntaxError F) (Expression F) := do
  let program ← Program.ofTree (← Formula.Tree.ofText text)
  return ⟨Text.trim text, program⟩

/-- The sides of the first `=`, without blanks at their ends, if neither of them is blank. -/
def sides? (text : String) : Option (String × String) :=
  let cs := text.toList
  let left := cs.takeWhile (· != '=')
  match cs.drop left.length with
  | [] => none
  | _ :: right =>
    let l := Text.trimChars left
    let r := Text.trimChars right
    if l.isEmpty || r.isEmpty then none else some (String.ofList l, String.ofList r)

/-- The text of an equation as that of the difference of its sides; other text only trimmed. -/
def equationText (text : String) : String :=
  match sides? text with
  | some (l, r) => "(" ++ l ++ ")-(" ++ r ++ ")"
  | none => Text.trim text

/-- An equation `A = B` stands for the formula `(A)-(B)`. -/
def compileEquation (text : String) : Except (SyntaxError F) (Expression F) :=
  compile (equationText text)

/-- The value at a point, over any scalars. -/
def evalScalar [Scalar F S] (e : Expression F) (x : S) : Except (Halt F) S :=
  e.program.execute x

def eval (e : Expression F) (x : F) : Except (Halt F) F :=
  e.program.execute x

/-- The value and the exact derivative. -/
def evalDual (e : Expression F) (x : F) : Except (Halt F) (Dual F) :=
  e.program.execute (Dual.variableAt x)

/-- The exact derivative. -/
def slope (e : Expression F) (x : F) : Except (Halt F) F :=
  (e.evalDual x).map Dual.eps

/-- The map `x - α · f(x)`, which has the roots of `f` as fixed points. -/
def residualMap [Numeral F] (α : F) (e : Expression F) : Expression F :=
  { source := "x - (" ++ Numeral.text α ++ ") * (" ++ e.source ++ ")"
    program := e.program.residualMap α }

/-- The number of instructions. -/
def size (e : Expression F) : Nat := e.program.size

/-! ## Curves of expressions -/

/-- The curve of an expression whose program fits. -/
def curveOfFits (e : Expression F) (fits : e.program.Fits) : Curve F where
  eval x := fits.value x
  slope x := (fits.value (Dual.variableAt x)).map Dual.eps
  eval_of_not_isFinite _ h := fits.value_of_not_isFinite h

/-- The family of an expression whose program fits, also with a map around it. -/
def familyOfFits (e : Expression F) (fits : e.program.Fits)
    (mapFits : (e.program.residualMap Arith.zero).Fits) : Family F where
  toCurve := e.curveOfFits fits
  residualMap α x := (mapFits.residualMap_of_residualMap α).value x

/-- The curve of an expression, or what stops its program. -/
def curve (e : Expression F) : Except StackFault (Curve F) :=
  if fits : e.program.Fits then .ok (e.curveOfFits fits) else .error e.program.obstacle

/-- The family of an expression, or what stops its program or a map around it. -/
def family (e : Expression F) : Except StackFault (Family F) :=
  if fits : e.program.Fits then
    if mapFits : (e.program.residualMap Arith.zero).Fits then .ok (e.familyOfFits fits mapFits)
    else .error (e.program.residualMap Arith.zero).obstacle
  else .error e.program.obstacle

end Expression

end ScalarSolve
