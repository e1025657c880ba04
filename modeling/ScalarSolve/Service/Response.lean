import ScalarSolve.Json.Basic
import ScalarSolve.Region.Bracket
import ScalarSolve.Region.Suggestion
import ScalarSolve.Service.Fault
import ScalarSolve.Solve.Comparison

/-!
# Responses

Statuses, headers and bodies.  Numbers that are not finite have no JSON and are sent as null.
-/

namespace ScalarSolve.Service

/-- What is sent back. -/
structure Response where
  status : Nat
  contentType : Option String
  /-- The methods that the path admits, where the request used another one. -/
  allow : Option String
  body : Option Json

namespace Response

/-- A status with a JSON body. -/
def json (status : Nat) (body : Json) : Response :=
  { status, contentType := some "application/json", allow := none, body := some body }

/-- A status alone. -/
def empty (status : Nat) (allow : Option String) : Response :=
  { status, contentType := none, allow, body := none }

/-- A fault as an object with the one field `error`. -/
def ofFault (e : Fault) : Response :=
  json e.status (.object [("error", .string e.message)])

/-- The response without its body. -/
def headersOnly (r : Response) : Response := { r with body := none }

/-- A result, or the fault in its place. -/
def ofResult {α : Type} (encode : α → Json) : Except Fault α → Response
  | .ok a => json 200 (encode a)
  | .error e => ofFault e

end Response

def number (x : Float) : Json :=
  if x.isFinite then .number (Decimal.Layout.answer.text x) else .null

def runBody (r : Run Float) : Json :=
  .object ([("root", number r.root), ("residualF", number r.residual), ("delta", number r.delta),
    ("converged", .bool r.converged), ("iterations", .ofNat r.iterations),
    ("trace", .array (r.trace.map number))] ++
    (r.message?.map fun m ↦ ("message", Json.string m)).toList)

def rowBody (r : Row Float) : Json :=
  .object [("method", .string r.method.name), ("iters", .ofNat r.iterations),
    ("converged", .bool r.converged), ("root", number r.root)]

def bracketBody (b : Bracket Float) : Json :=
  .object [("a", number b.a), ("b", number b.b), ("fa", number b.fa), ("fb", number b.fb)]

def sampleBody (s : Sample Float) : Json := .object [("x", number s.x), ("y", number s.y)]

def scanBody (s : Scan Float) : Json :=
  .object [("intervals", .array (s.brackets.toList.map bracketBody)),
    ("samples", .array (s.samples.toList.map sampleBody))]

def contractionBody (c : Contraction Float) : Json :=
  .object [("maxAbsGPrime", .ofOption number c.steepest),
    ("contractive", .ofOption .bool c.contractive?)]

def suggestionBody (s : Suggestion Float) : Json :=
  .object [("suggest", number s.start), ("lo", number s.lo), ("hi", number s.hi),
    ("alpha", number s.α)]

end ScalarSolve.Service
