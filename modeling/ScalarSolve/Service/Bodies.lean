import ScalarSolve.Service.MediaType
import ScalarSolve.Service.Routes

/-!
# Bodies

The reader of the program: JSON, told by its media type.
-/

namespace ScalarSolve.Service

open Json (Document)

namespace Reader

/-- What is wrong with a body that states no request. -/
def complaint (r : Request) : String :=
  if !(r.contentType.map MediaType.isJson).getD false then
    "Expected request with `Content-Type: application/json`"
  else if bodyLimit < r.body.utf8ByteSize then
    "Failed to buffer the request body: length limit exceeded"
  else if (Document.ofText? r.body).isNone then "Failed to parse the request body as JSON"
  else "Failed to deserialize the JSON body into the target type"

/-- Bodies in JSON. -/
def json : Reader :=
  { isJson := MediaType.isJson, document? := Document.ofText?, rejection := complaint }

end Reader

end ScalarSolve.Service
