/-!
# The shortest decimal of a double

A finite positive double is `m · 2 ^ q`, and the reals that round to it form an interval around it.
The shortest decimal is the point in that interval of the coarsest grid of powers of ten that has
one; of two such points the nearer one is taken, and of two equally near ones the one that a rule
names.
-/

namespace ScalarSolve.Decimal

/-- A positive decimal `coefficient · 10 ^ exponent`. -/
structure Digits where
  coefficient : Nat
  exponent : Int
deriving DecidableEq, Repr

/-- Which of two equally near decimals is taken. -/
inductive Tie where
  /-- The one whose last digit is even. -/
  | toEven
  | toGreater
deriving DecidableEq, Repr

/-- Whether the lower of two neighbouring multiples is taken, by its coefficient. -/
def Tie.takesLower : Tie → Nat → Bool
  | toEven, coefficient => coefficient % 2 == 0
  | toGreater, _ => false

/-- The bit that normal mantissas start with, which is not stored. -/
def hiddenBit : Nat := 1 <<< 52

/-- A positive double: the ratio of two natural numbers, and the ends of the interval of reals that
round to it, all over one denominator. -/
structure Neighbourhood where
  low : Nat
  value : Nat
  high : Nat
  denominator : Nat
  /-- The ends themselves round to the double, ties going to the even mantissa. -/
  closed : Bool

namespace Neighbourhood

/-- The neighbourhood of `m · 2 ^ q`; below a power of two the spacing halves. -/
def ofBinary (m : Nat) (q : Int) (narrowBelow : Bool) : Neighbourhood :=
  let scale := if 0 ≤ q then 1 <<< q.toNat else 1
  { low := (4 * m - (if narrowBelow then 1 else 2)) * scale
    value := 4 * m * scale
    high := (4 * m + 2) * scale
    denominator := if 0 ≤ q then 4 else 4 <<< (-q).toNat
    closed := m % 2 == 0 }

/-- The magnitude stored in the low 63 bits of a double. -/
def ofBits (bits : Nat) : Neighbourhood :=
  let field : Nat := bits / hiddenBit % 2048
  let fraction : Nat := bits % hiddenBit
  if field = 0 then ofBinary fraction (-1074) false
  else ofBinary (hiddenBit + fraction) ((field : Int) - 1075) (fraction == 0 && 1 < field)

/-- Whether `num / den` times the denominator lies in the interval. -/
def contains (n : Neighbourhood) (num den : Nat) : Bool :=
  if n.closed then n.low * den ≤ num && num ≤ n.high * den
  else n.low * den < num && num < n.high * den

/-- The decade `e` with `10 ^ e ≤ value < 10 ^ (e + 1)`, found from the binary logarithms and
corrected by one comparison. -/
def decade (n : Neighbourhood) : Int :=
  let guess := ((n.value.log2 : Int) - n.denominator.log2 - 1) * 30103 / 100000
  let reached (e : Int) : Bool :=
    if 0 ≤ e then n.denominator * Nat.pow 10 e.toNat ≤ n.value
    else n.denominator ≤ n.value * Nat.pow 10 (-e).toNat
  if reached (guess + 1) then guess + 1
  else if reached guess then guess
  else guess - 1

/-- The nearest point of the grid of multiples of `10 ^ e` that lies in the interval. -/
def onGrid? (n : Neighbourhood) (tie : Tie) (e : Int) : Option Nat :=
  let up := if 0 ≤ e then 1 else Nat.pow 10 (-e).toNat
  let down := if 0 ≤ e then Nat.pow 10 e.toNat else 1
  let unit := n.denominator * down
  let below := n.value * up / unit
  let rest := n.value * up % unit
  let hasBelow := n.contains (below * unit) up
  let hasAbove := n.contains ((below + 1) * unit) up
  let isNearer := 2 * rest < unit || (2 * rest == unit && tie.takesLower below)
  if hasBelow && (!hasAbove || isNearer) then some below
  else if hasAbove then some (below + 1)
  else none

/-- The coarsest grid with a point in the interval, from one that has a point on.  A point of a grid
lies on all finer ones too, so the first grid without a point ends the search. -/
def coarsest (n : Neighbourhood) (tie : Tie) (c : Nat) (e : Int) : (left : Nat) → Digits
  | 0 => ⟨c, e⟩
  | left + 1 =>
    match n.onGrid? tie (e + 1) with
    | some c => n.coarsest tie c (e + 1) left
    | none => ⟨c, e⟩

/-- The shortest decimal in the interval, nearest to the value.  The grid of seventeen significant
digits always has a point. -/
def shortest (n : Neighbourhood) (tie : Tie) : Digits :=
  let e := n.decade - 16
  n.coarsest tie ((n.onGrid? tie e).getD 0) e 16

end Neighbourhood

/-- The digits of a natural number, most significant first, with its trailing zeros counted. -/
def trimmedDigits (d : Digits) : List Char × Int :=
  let text := (toString d.coefficient).toList
  let zeros := (text.reverse.takeWhile (· == '0')).length
  (text.take (text.length - zeros), d.exponent + zeros)

end ScalarSolve.Decimal
