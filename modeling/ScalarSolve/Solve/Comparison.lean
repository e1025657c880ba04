import ScalarSolve.Solve.Problem

/-! # Several methods on one problem -/

namespace ScalarSolve

/-- What one method made of the problem. -/
structure Row (F : Type) where
  method : Method
  iterations : Nat
  converged : Bool
  root : F
deriving DecidableEq, Repr

namespace Row

variable {F : Type}

def ofRun (m : Method) (r : Run F) : Row F := ⟨m, r.iterations, r.converged, r.root⟩

end Row

namespace Problem

variable {F : Type} [Arith F]

/-- A row for each method, in the order in which they are first named. -/
def compare (p : Problem F) (methods : List Method) : Except (RangeError F) (List (Row F)) := do
  let distinct := methods.eraseDups
  if distinct.isEmpty then .error .noMethods
  else
    p.limits.validate
    p.check distinct
    distinct.mapM fun m ↦ (m.run p).map (Row.ofRun m)

end Problem

end ScalarSolve
