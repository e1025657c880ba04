import ScalarSolve.Settings.Basic
import ScalarSolve.Text.Digits

/-!
# Socket addresses

An address is an IPv4 address in dotted decimal without leading zeros, or an IPv6 address between
brackets, and a port.  IPv6 addresses are written with the longest run of zero groups left out.
-/

namespace ScalarSolve

/-- An address to listen on. -/
inductive SocketAddress where
  | v4 (octets : List Nat) (port : Nat)
  | v6 (groups : List Nat) (scope port : Nat)
deriving DecidableEq, Repr

namespace SocketAddress

/-! ## Reading -/

/-- The text after a character. -/
def after? (c : Char) : List Char → Option (List Char)
  | d :: rest => if d == c then some rest else none
  | [] => none

/-- A decimal number below `limit`. -/
def decimal? (limit : Nat) (cs : List Char) : Option (Nat × List Char) :=
  let ds := cs.takeWhile Char.isDigit
  let n := Text.decimalValue ds
  if ds.isEmpty || limit ≤ n then none else some (n, cs.drop ds.length)

/-- An octet has no leading zero. -/
def octet? (cs : List Char) : Option (Nat × List Char) :=
  match cs.takeWhile Char.isDigit with
  | '0' :: _ :: _ => none
  | _ => decimal? 256 cs

/-- Four octets with points between them. -/
def octets? (cs : List Char) : Option (List Nat × List Char) := do
  let (a, cs) ← octet? cs
  let (b, cs) ← octet? (← after? '.' cs)
  let (c, cs) ← octet? (← after? '.' cs)
  let (d, cs) ← octet? (← after? '.' cs)
  return ([a, b, c, d], cs)

/-- A group is up to four hexadecimal digits. -/
def group? (cs : List Char) : Option (Nat × List Char) :=
  let ds := cs.takeWhile Text.isHexDigit
  if ds.isEmpty || 4 < ds.length then none
  else some (Text.hexValue ds, cs.drop ds.length)

/-- Up to `limit` groups, and whether the last two are written as octets.  A colon stands before
each but the first. -/
def groups (limit : Nat) (first : Bool) (cs : List Char) : List Nat × Bool × List Char :=
  match limit with
  | 0 => ([], false, cs)
  | left + 1 =>
    let here? := if first then some cs else after? ':' cs
    match (if 0 < left then here?.bind octets? else none) with
    | some ([a, b, c, d], rest) => ([256 * a + b, 256 * c + d], true, rest)
    | _ =>
      match here?.bind group? with
      | none => ([], false, cs)
      | some (g, rest) =>
        let (gs, mixed, rest) := groups left false rest
        (g :: gs, mixed, rest)

/-- Eight groups, a run of which may be left out between two colons. -/
def address6? (cs : List Char) : Option (List Nat × List Char) :=
  let (front, mixed, rest) := groups 8 true cs
  if front.length = 8 then some (front, rest)
  else if mixed then none
  else do
    let rest ← after? ':' (← after? ':' rest)
    let (back, _, rest) := groups (7 - front.length) true rest
    return (front ++ List.replicate (8 - front.length - back.length) 0 ++ back, rest)

/-- A port after its colon, at the end of the text. -/
def port? (cs : List Char) : Option Nat := do
  let (n, rest) ← decimal? Settings.portLimit (← after? ':' cs)
  if rest.isEmpty then some n else none

def v4? (cs : List Char) : Option SocketAddress := do
  let (octets, rest) ← octets? cs
  return v4 octets (← port? rest)

/-- The number of a scope after a percent sign, if there is one. -/
def scope? (cs : List Char) : Option (Nat × List Char) :=
  match cs with
  | '%' :: rest => decimal? (1 <<< 32) rest
  | cs => some (0, cs)

def v6? (cs : List Char) : Option SocketAddress := do
  let (gs, rest) ← address6? (← after? '[' cs)
  let (scope, rest) ← scope? rest
  return v6 gs scope (← port? (← after? ']' rest))

def ofText? (text : String) : Option SocketAddress :=
  let cs := text.toList
  (v4? cs).orElse fun _ ↦ v6? cs

/-! ## Writing -/

/-- The number of zeros at the front. -/
def zeroRun (gs : List Nat) : Nat := (gs.takeWhile (· == 0)).length

/-- The start and length of the longest run of zeros, the first of several. -/
def longestZeroRun (gs : List Nat) : Nat × Nat :=
  (List.range gs.length).foldl (fun best i ↦
    let n := zeroRun (gs.drop i)
    if best.2 < n then (i, n) else best) (0, 0)

def hexText (n : Nat) : String := String.ofList (Nat.toDigits 16 n)

def groupsText (gs : List Nat) : String := ":".intercalate (gs.map hexText)

def octetsText (os : List Nat) : String := ".".intercalate (os.map toString)

/-- A single zero group is written out, and an embedded IPv4 address in octets. -/
def address6Text (gs : List Nat) : String :=
  match gs with
  | [0, 0, 0, 0, 0, 0xFFFF, a, b] =>
    "::ffff:" ++ octetsText [a / 256, a % 256, b / 256, b % 256]
  | gs =>
    let (start, length) := longestZeroRun gs
    if length < 2 then groupsText gs
    else groupsText (gs.take start) ++ "::" ++ groupsText (gs.drop (start + length))

def text : SocketAddress → String
  | v4 octets port => octetsText octets ++ ":" ++ toString port
  | v6 gs scope port =>
    "[" ++ address6Text gs ++ (if scope = 0 then "" else "%" ++ toString scope) ++ "]:"
      ++ toString port

end SocketAddress

namespace Settings

/-- The address that the settings name. -/
def socketAddress (s : Settings) : Except SettingsError SocketAddress :=
  match SocketAddress.ofText? s.address with
  | some a => .ok a
  | none => .error (.address s.address)

end Settings

end ScalarSolve
