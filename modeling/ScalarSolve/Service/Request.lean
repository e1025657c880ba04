import ScalarSolve.Arith.Double
import ScalarSolve.Json.Number

/-!
# Requests

The bodies of requests.  A request is a record whose fields may all be left out; it is written as an
object, or as an array of the fields in their order.
-/

namespace ScalarSolve.Service

open Json (Document)

/-- The fields of a record that are given. -/
abbrev Fields := List (String × Document)

namespace Fields

/-- The fields with known names; of these none may be given twice. -/
def ofObject? (names : List String) (members : List (List Char × Document)) : Option Fields := do
  let named ← members.mapM fun (key, value) ↦
    (Document.unescape key).map fun cs ↦ (String.ofList cs, value)
  let known := named.filter fun (name, _) ↦ names.contains name
  if (known.map Prod.fst).eraseDups.length = known.length then some known else none

/-- The fields that a document gives to a record. -/
def ofDocument? (names : List String) : Document → Option Fields
  | .object members => ofObject? names members
  | .array items => if items.length ≤ names.length then some (names.zip items) else none
  | _ => none

/-- A field read from the document that is given for it, or its default. -/
def read {α : Type} (fields : Fields) (name : String) (decode : Document → Option α)
    (default : α) : Option α :=
  match fields.lookup name with
  | some d => decode d
  | none => some default

end Fields

def number? : Document → Option Float
  | .number l => l.quick?
  | _ => none

def count? : Document → Option Nat
  | .number l => l.toWord?
  | _ => none

def flag? : Document → Option Bool
  | .bool b => some b
  | _ => none

def texts? : Document → Option (List String)
  | .array items => items.mapM Document.text?
  | _ => none

/-- The tolerance of a request that gives none. -/
def defaultTolerance : Float := Arith.ofDecimal 1 (-8)

/-- The number of iterations of a request that gives none. -/
def defaultIterations : Nat := 100

/-- One method on one problem. -/
structure SolveRequest where
  method : String
  f : String
  g : String
  x₀ : Float
  x₁ : Float
  tolerance : Float
  maxIterations : Nat
  numericDerivative : Bool
  relax : Float
deriving DecidableEq, Repr

/-- Several methods on one problem. -/
structure CompareRequest where
  methods : List String
  f : String
  g : String
  x₀ : Float
  x₁ : Float
  tolerance : Float
  maxIterations : Nat
deriving DecidableEq, Repr

/-- A scan for brackets. -/
structure BracketRequest where
  f : String
  a : Float
  b : Float
  steps : Nat
deriving DecidableEq, Repr

/-- A contraction check. -/
structure CheckRequest where
  g : String
  a : Float
  b : Float
  samples : Nat
deriving DecidableEq, Repr

/-- A search for a suggestion. -/
structure SuggestRequest where
  f : String
  x₀ : Float
deriving DecidableEq, Repr

namespace SolveRequest

def ofDocument? (d : Document) : Option SolveRequest := do
  let r ← Fields.ofDocument?
    ["method", "f", "g", "x0", "x1", "tol", "maxIter", "useNumDer", "relax"] d
  return {
    method := ← r.read "method" Document.text? "newton"
    f := ← r.read "f" Document.text? ""
    g := ← r.read "g" Document.text? ""
    x₀ := ← r.read "x0" number? 0
    x₁ := ← r.read "x1" number? 0
    tolerance := ← r.read "tol" number? defaultTolerance
    maxIterations := ← r.read "maxIter" count? defaultIterations
    numericDerivative := ← r.read "useNumDer" flag? false
    relax := ← r.read "relax" number? 1 }

end SolveRequest

namespace CompareRequest

def ofDocument? (d : Document) : Option CompareRequest := do
  let r ← Fields.ofDocument? ["methods", "f", "g", "x0", "x1", "tol", "maxIter"] d
  return {
    methods := ← r.read "methods" texts? []
    f := ← r.read "f" Document.text? ""
    g := ← r.read "g" Document.text? ""
    x₀ := ← r.read "x0" number? 0
    x₁ := ← r.read "x1" number? 0
    tolerance := ← r.read "tol" number? defaultTolerance
    maxIterations := ← r.read "maxIter" count? defaultIterations }

end CompareRequest

namespace BracketRequest

def ofDocument? (d : Document) : Option BracketRequest := do
  let r ← Fields.ofDocument? ["f", "a", "b", "steps"] d
  return {
    f := ← r.read "f" Document.text? ""
    a := ← r.read "a" number? 0
    b := ← r.read "b" number? 0
    steps := ← r.read "steps" count? 500 }

end BracketRequest

namespace CheckRequest

def ofDocument? (d : Document) : Option CheckRequest := do
  let r ← Fields.ofDocument? ["g", "a", "b", "samples"] d
  return {
    g := ← r.read "g" Document.text? ""
    a := ← r.read "a" number? 0
    b := ← r.read "b" number? 0
    samples := ← r.read "samples" count? 300 }

end CheckRequest

namespace SuggestRequest

def ofDocument? (d : Document) : Option SuggestRequest := do
  let r ← Fields.ofDocument? ["f", "x0"] d
  return {
    f := ← r.read "f" Document.text? ""
    x₀ := ← r.read "x0" number? 0 }

end SuggestRequest

end ScalarSolve.Service
