import ScalarSolve.Decimal.Nearest
import ScalarSolve.Json.Document
import ScalarSolve.Text.Digits

/-!
# Numbers in JSON

A literal is read as a count, as the double nearest to it, or quickly: the leading digits that fit
a 64-bit word are rounded to a double, which is then scaled by a power of ten and rounded again.
-/

namespace ScalarSolve.Json.Literal

/-- Counts are below this. -/
def wordLimit : Nat := 1 <<< 64

/-- An integer without a sign, if a 64-bit word holds it. -/
def toWord? (l : Literal) : Option Nat :=
  match l with
  | ⟨false, whole, none, none⟩ =>
    let n := Text.decimalValue whole
    if n < wordLimit then some n else none
  | _ => none

/-- The power of ten that is written. -/
def power (l : Literal) : Int :=
  match l.exponent with
  | none => 0
  | some (negative, ds) => if negative then -(Text.decimalValue ds : Int) else Text.decimalValue ds

/-- The double nearest to the literal. -/
def nearest (l : Literal) : Float :=
  let places := l.places.getD []
  let magnitude := Decimal.nearest (Text.decimalValue (l.whole ++ places)) (l.power - places.length)
  if l.negative then -magnitude else magnitude

/-- The longest run of leading digits that extends `n` within a 64-bit word, and the digits left. -/
def leading (n : Nat) : List Char → Nat × List Char
  | [] => (n, [])
  | d :: rest =>
    let m := 10 * n + (d.toNat - '0'.toNat)
    if m < wordLimit then leading m rest else (n, d :: rest)

/-- The leading digits and the power of ten they are scaled by.  Digits left of the point that do
not fit still count as places; those right of it are dropped. -/
def significand (l : Literal) : Nat × Int :=
  let (n, left) := leading 0 l.whole
  let places := l.places.getD []
  let (m, dropped) := leading n places
  (m, (left.length : Int) - ((places.length : Int) - dropped.length))

/-- Exponents with more digits than this are out of range whatever the digits are. -/
def exponentLimit : Nat := 1 <<< 31

/-- A double divided by ten to the power `n`, in steps that keep the divisor finite. -/
def divided (x : Float) (n : Nat) : Float :=
  if n ≤ 308 then x / Decimal.nearest 1 n
  else if x == 0 then x
  else divided (x / Decimal.nearest 1 308) (n - 308)
termination_by n

/-- A double times a power of ten, if the result is finite. -/
def scaled? (x : Float) (power : Int) : Option Float :=
  if power < 0 then some (divided x (-power).toNat)
  else if 308 < power then (if x == 0 then some x else none)
  else
    let y := x * Decimal.nearest 1 power
    if y.isInf then none else some y

/-- The magnitude of the literal by one rounding of its leading digits and one of the scaling. -/
def quickMagnitude? (l : Literal) : Option Float :=
  let (m, shift) := l.significand
  if exponentLimit ≤ l.power.natAbs then
    if m = 0 || l.power < 0 then some 0 else none
  else scaled? (Decimal.nearest m 0) (shift + l.power)

/-- The double read quickly; a literal beyond the finite range is refused. -/
def quick? (l : Literal) : Option Float :=
  l.quickMagnitude?.map fun x ↦ if l.negative then -x else x

end ScalarSolve.Json.Literal
