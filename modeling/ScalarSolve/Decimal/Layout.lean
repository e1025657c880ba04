import ScalarSolve.Decimal.Shortest

/-!
# Written forms of a double

A layout says which decimal exponents are written in place, whether a whole number keeps a
fraction `.0` and where ties go, and so fixes one text for every double.  The digits are always the
shortest ones.
-/

namespace ScalarSolve.Decimal

/-- How the digits of a number are laid out. -/
structure Layout where
  /-- The decimal exponents written without an exponent part. -/
  inPlace : Int → Bool
  /-- Whether a whole number written in place ends in `.0`. -/
  keepsPoint : Bool
  tie : Tie

namespace Layout

/-- Numbers in answers: in place from `10 ^ (-5)` to below `10 ^ 16`, always with a point; a tie
goes to the even digit. -/
def answer : Layout := ⟨fun e ↦ -5 ≤ e && e ≤ 15, true, .toEven⟩

/-- Numbers inside sentences: always in place, and whole numbers as integers; a tie goes to the
greater magnitude. -/
def sentence : Layout := ⟨fun _ ↦ true, false, .toGreater⟩

/-- Digits with the last one at `10 ^ exponent`, written without an exponent part. -/
def placed (f : Layout) (digits : List Char) (exponent : Int) : List Char :=
  if 0 ≤ exponent then
    digits ++ List.replicate exponent.toNat '0' ++ (if f.keepsPoint then ['.', '0'] else [])
  else
    let places := (-exponent).toNat
    let padded := List.replicate (places + 1 - digits.length) '0' ++ digits
    padded.take (padded.length - places) ++ '.' :: padded.drop (padded.length - places)

/-- Digits in the form `d.ddde±E`, the first one standing at `10 ^ leading`. -/
def scientific (digits : List Char) (leading : Int) : List Char :=
  let mantissa := match digits with
    | [] => []
    | [d] => [d]
    | d :: rest => d :: '.' :: rest
  mantissa ++ 'e' :: (if leading < 0 then '-' else '+') :: (toString leading.natAbs).toList

/-- The text of a positive decimal. -/
def digits (f : Layout) (d : Digits) : List Char :=
  let (text, exponent) := trimmedDigits d
  let leading := exponent + text.length - 1
  if f.inPlace leading then f.placed text exponent else scientific text leading

/-- The text of a magnitude, given by the low 63 bits of a double. -/
def magnitude (f : Layout) (bits : Nat) : List Char :=
  if bits = 0 then f.placed ['0'] 0
  else f.digits ((Neighbourhood.ofBits bits).shortest f.tie)

/-- The bit that tells negative doubles. -/
def signBit : Nat := 1 <<< 63

/-- The text of a double.  The sign of zero is written, and a NaN has none. -/
def text (f : Layout) (x : Float) : String :=
  if x.isNaN then "NaN"
  else
    let bits := x.toBits.toNat
    let sign := if signBit ≤ bits then ['-'] else []
    let body := if x.isInf then ['i', 'n', 'f'] else f.magnitude (bits % signBit)
    String.ofList (sign ++ body)

end Layout

end ScalarSolve.Decimal
