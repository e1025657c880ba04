/-! # Methods -/

namespace ScalarSolve

/-- The ways to search for a root. -/
inductive Method where
  | newton
  | fixed
  | bisection
  | secant
deriving DecidableEq, Repr

namespace Method

def all : List Method := [newton, fixed, bisection, secant]

def name : Method → String
  | newton => "newton"
  | fixed => "fixed"
  | bisection => "bisection"
  | secant => "secant"

/-- The expression that a method works on: the map `g`, or the function `f` itself. -/
def required : Method → String
  | fixed => "g"
  | newton | bisection | secant => "f"

def ofName? (name : String) : Option Method := all.find? (·.name == name)

@[simp] theorem ofName?_name (m : Method) : ofName? m.name = some m := by cases m <;> rfl

end Method

end ScalarSolve
