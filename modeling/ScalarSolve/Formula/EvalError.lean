import ScalarSolve.Arith

/-! # Where formulas are undefined -/

namespace ScalarSolve.Formula

/-- Why a formula has no value at `x`. -/
inductive EvalError (F : Type) where
  | divisionByZero (x : F)
  | logNonPositive (x argument : F)
  | sqrtNegative (x argument : F)
  /-- An intermediate or final value is not finite. -/
  | nonFinite (x : F)
deriving DecidableEq, Repr

namespace EvalError

variable {F : Type}

/-- The point of evaluation. -/
def point : EvalError F → F
  | divisionByZero x | logNonPositive x _ | sqrtNegative x _ | nonFinite x => x

def message [Numeral F] : EvalError F → String
  | divisionByZero x => "Division by zero at x = " ++ Numeral.text x
  | logNonPositive x argument =>
      "log of non-positive argument " ++ Numeral.text argument ++ " at x = " ++ Numeral.text x
  | sqrtNegative x argument =>
      "sqrt of negative argument " ++ Numeral.text argument ++ " at x = " ++ Numeral.text x
  | nonFinite x => "Non-finite value at x = " ++ Numeral.text x

end EvalError

end ScalarSolve.Formula
