import ScalarSolve.Arith.Double
import ScalarSolve.Failure

/-!
# Faults of the service

A request that fails is answered with a status and a sentence.  What the client asked for wrongly is
told apart from what could not be found and from what the service itself got wrong.
-/

namespace ScalarSolve.Service

/-- Why a request is not answered with a result. -/
inductive Fault where
  | failure (e : Failure Float)
  | overLimit (asked limit : Nat)
  | expressionRequired (name : String)
  /-- A body that states no request, in the words of whoever has read it. -/
  | body (rejection : String)
  /-- A bad request in the words of whoever reports it. -/
  | badRequest (text : String)
  | internal (text : String)
deriving DecidableEq, Repr

namespace Fault

def message : Fault → String
  | failure e => e.message
  | overLimit asked limit =>
      "maxIter " ++ toString asked ++ " exceeds the server limit of " ++ toString limit
  | expressionRequired name => "expression '" ++ name ++ "' is required"
  | body rejection => "Invalid request body: " ++ rejection
  | badRequest text => text
  | internal text => "Internal server error: " ++ text

/-- The status of the answer. -/
def status : Fault → Nat
  | failure (.range _) | failure (.malformed _) => 400
  | failure (.noStableRegion _) | failure (.undefined _) => 422
  | overLimit _ _ | expressionRequired _ | body _ | badRequest _ => 400
  | internal _ => 500

end Fault

end ScalarSolve.Service
