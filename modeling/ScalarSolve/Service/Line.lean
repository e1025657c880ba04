import ScalarSolve.Service.Routes

/-!
# Requests on a line

A request in one line of text: the method, the path, and the body after them.  Its answer is a line
too: the status, and the body if there is one.
-/

namespace ScalarSolve.Service

namespace Request

/-- The characters up to the first blank, and those behind it. -/
def word (cs : List Char) : List Char × List Char :=
  let w := cs.takeWhile (· != ' ')
  (w, cs.drop (w.length + 1))

/-- The request that a line states; the body is JSON. -/
def ofLine (line : String) : Request :=
  let (method, rest) := word (Text.trimChars line.toList)
  let (path, body) := word rest
  { method := String.ofList method, path := String.ofList path,
    contentType := some "application/json", body := String.ofList body }

end Request

namespace Response

/-- The status and the body in one line. -/
def line (r : Response) : String :=
  toString r.status ++ (r.body.map fun b ↦ " " ++ b.print).getD ""

end Response

end ScalarSolve.Service
