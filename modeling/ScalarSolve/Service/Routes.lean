import ScalarSolve.Service.Handlers
import ScalarSolve.Service.Response

/-!
# Routes

Which path leads to which answer.  Paths are compared as they are, without their host, query and
fragment.  How bodies are read is left to a reader.
-/

namespace ScalarSolve.Service

open Json (Document)

/-- A request as it arrives. -/
structure Request where
  method : String
  path : String
  contentType : Option String
  body : String

/-- How bodies are read. -/
structure Reader where
  /-- Whether a body with this content type is taken for JSON. -/
  isJson : String → Bool
  document? : String → Option Document
  /-- What is said of a request whose body states none. -/
  rejection : Request → String

/-- The places that the service answers at. -/
inductive Route where
  | solve
  | compare
  | bracket
  | check
  | suggest
  | health
  | ready
deriving DecidableEq, Repr

/-- The version of the service. -/
def version : String := "0.1.0"

namespace Route

/-- The path of a route. -/
def path : Route → String
  | solve => "/api/v1/root/solve"
  | compare => "/api/v1/root/compare"
  | bracket => "/api/v1/root/bracket"
  | check => "/api/v1/root/fixed/check"
  | suggest => "/api/v1/root/fixed/suggest-alpha"
  | health => "/health"
  | ready => "/ready"

def all : List Route := [solve, compare, bracket, check, suggest, health, ready]

/-- What follows a scheme and a host, if a target has them. -/
def afterHost (target : List Char) : List Char :=
  match target, target.dropWhile (· != ':') with
  | '/' :: _, _ => target
  | _, ':' :: '/' :: '/' :: rest => rest.dropWhile fun c ↦ c != '/' && c != '?' && c != '#'
  | _, _ => target

/-- The route of a path, whatever host stands before it and whatever query or fragment after it. -/
def ofPath? (path : String) : Option Route :=
  let plain := String.ofList
    ((afterHost path.toList).takeWhile fun c ↦ c != '?' && c != '#')
  all.find? fun r ↦ r.path == plain

/-- Whether the route is there to be looked at, and takes no body. -/
def isProbe : Route → Bool
  | health | ready => true
  | solve | compare | bracket | check | suggest => false

end Route

/-- The most bytes that a body may have. -/
def bodyLimit : Nat := 1 <<< 21

/-- What the body states, if it is not too long and is taken for JSON. -/
def Reader.read? {ρ : Type} (reader : Reader) (decode : Document → Option ρ) (r : Request) :
    Option ρ :=
  let isJson := (r.contentType.map reader.isJson).getD false
  if isJson && r.body.utf8ByteSize ≤ bodyLimit then (reader.document? r.body).bind decode else none

/-- The answer to a body, if it is a request. -/
def answerBody {ρ α : Type} (reader : Reader) (decode : Document → Option ρ)
    (handle : ρ → Except Fault α) (encode : α → Json) (r : Request) : Response :=
  match reader.read? decode r with
  | some request => .ofResult encode (handle request)
  | none => .ofFault (.body (reader.rejection r))

def healthBody (s : Settings) : Json :=
  .object [("status", .string "healthy"), ("version", .string version),
    ("environment", .string s.environment.name),
    ("maxIterationsLimit", .ofNat s.maxIterationsLimit)]

/-- The answer of a route to a request with the right method. -/
def answer (reader : Reader) (s : Settings) (r : Request) : Route → Response
  | .solve => answerBody reader SolveRequest.ofDocument? (solve s) runBody r
  | .compare =>
      answerBody reader CompareRequest.ofDocument? (compare s)
        (fun rows ↦ .array (rows.map rowBody)) r
  | .bracket => answerBody reader BracketRequest.ofDocument? bracket scanBody r
  | .check => answerBody reader CheckRequest.ofDocument? check contractionBody r
  | .suggest => answerBody reader SuggestRequest.ofDocument? suggest suggestionBody r
  | .health => .json 200 (healthBody s)
  | .ready => .json (if isReady then 200 else 503) (.object [("ready", .bool isReady)])

/-- The response to a request. -/
def respond (reader : Reader) (s : Settings) (r : Request) : Response :=
  match Route.ofPath? r.path with
  | none => .empty 404 none
  | some route =>
    if route.isProbe then
      if r.method == "GET" then answer reader s r route
      else if r.method == "HEAD" then (answer reader s r route).headersOnly
      else .empty 405 (some "GET,HEAD")
    else if r.method == "POST" then answer reader s r route
    else .empty 405 (some "POST")

/-- The origins that may read responses: all of them while developing. -/
def allowedOrigin (s : Settings) : Option String :=
  if s.environment.isDevelopment then some "*" else none

end ScalarSolve.Service
