/-! # Digits and the numbers they denote -/

namespace ScalarSolve.Text

/-- The natural number that decimal digits denote. -/
def decimalValue (ds : List Char) : Nat :=
  ds.foldl (fun n d ↦ 10 * n + (d.toNat - '0'.toNat)) 0

/-- The number that one hexadecimal digit denotes, in letters of either case. -/
def hexDigit? (c : Char) : Option Nat :=
  if c.isDigit then some (c.toNat - '0'.toNat)
  else if 'a' ≤ c && c ≤ 'f' then some (c.toNat - 'a'.toNat + 10)
  else if 'A' ≤ c && c ≤ 'F' then some (c.toNat - 'A'.toNat + 10)
  else none

def isHexDigit (c : Char) : Bool := (hexDigit? c).isSome

/-- The natural number that hexadecimal digits denote. -/
def hexValue (ds : List Char) : Nat :=
  ds.foldl (fun n d ↦ 16 * n + (hexDigit? d).getD 0) 0

end ScalarSolve.Text
