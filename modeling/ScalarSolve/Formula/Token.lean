import ScalarSolve.Formula.SyntaxError
import ScalarSolve.Text.Digits

/-!
# Tokens

A text is cut into the longest lexemes from left to right; blanks between them are dropped.  Every
token keeps the byte offsets at which its lexeme starts and stops.
-/

namespace ScalarSolve.Formula

/-- A lexeme and the bytes it takes up. -/
structure Token (F : Type) where
  lexeme : Lexeme F
  start : Nat
  stop : Nat
deriving DecidableEq, Repr

namespace Scan

variable {F : Type} [Arith F]

/-- The blanks that may stand between lexemes. -/
def isSpace (c : Char) : Bool :=
  c == ' ' || c == '\t' || c == '\n' || c == '\x0c' || c == '\r'

def startsNumber (c : Char) : Bool := c.isDigit || c == '.'

def startsName (c : Char) : Bool := c.isAlpha || c == '_'

def continuesName (c : Char) : Bool := c.isAlphanum || c == '_'

/-- The digits after a decimal point, and the characters taken up by both. -/
def fraction : List Char → List Char × Nat
  | '.' :: rest => (rest.takeWhile Char.isDigit, (rest.takeWhile Char.isDigit).length + 1)
  | _ => ([], 0)

/-- Whether the exponent is negative, and the characters taken up by its sign. -/
def exponentSign : List Char → Bool × Nat
  | '-' :: _ => (true, 1)
  | '+' :: _ => (false, 1)
  | _ => (false, 0)

/-- The exponent part at the front of the text and its length; nothing where there is none.
An `e` that no digit follows is refused. -/
def exponent? : List Char → Option (Int × Nat)
  | c :: rest =>
    if c == 'e' || c == 'E' then
      let (negative, signLength) := exponentSign rest
      let ds := (rest.drop signLength).takeWhile Char.isDigit
      if ds.isEmpty then none
      else
        let size : Int := Text.decimalValue ds
        some (if negative then -size else size, signLength + ds.length + 1)
    else some (0, 0)
  | [] => some (0, 0)

/-- The number literal at the front of the text, and its length.  An error comes with its distance
from the start of the literal. -/
def number (cs : List Char) : Except (SyntaxCause F × Nat) (F × Nat) :=
  let whole := cs.takeWhile Char.isDigit
  let (places, fractionLength) := fraction (cs.drop whole.length)
  let length := whole.length + fractionLength
  if whole.isEmpty && places.isEmpty then .error (.missingDigits, 0)
  else
    match exponent? (cs.drop length) with
    | none => .error (.malformedExponent, length)
    | some (power, exponentLength) =>
      .ok (Arith.ofDecimal (Text.decimalValue (whole ++ places)) (power - places.length),
        length + exponentLength)

/-- The lexeme that starts with `c`, and how many characters of `rest` belong to it. -/
def lexeme (c : Char) (rest : List Char) : Except (SyntaxCause F × Nat) (Lexeme F × Nat) :=
  if startsNumber c then
    (number (c :: rest)).map fun (value, length) ↦ (.number value, length - 1)
  else if startsName c then
    let tail := rest.takeWhile continuesName
    .ok (.name (String.ofList (c :: tail)), tail.length)
  else match c with
    | '+' => .ok (.plus, 0)
    | '-' => .ok (.minus, 0)
    | '*' => if rest.head? == some '*' then .ok (.caret, 1) else .ok (.star, 0)
    | '/' => .ok (.slash, 0)
    | '^' => .ok (.caret, 0)
    | '(' => .ok (.opening, 0)
    | ')' => .ok (.closing, 0)
    | _ => .error (.unexpectedCharacter c, 0)

/-- The tokens of a text whose first character stands at byte `start`. -/
def tokens (start : Nat) : List Char → Except (SyntaxError F) (List (Token F))
  | [] => .ok []
  | c :: rest =>
    if isSpace c then tokens (start + 1) rest
    else match lexeme c rest with
      | .error (cause, offset) => .error (.placed (start + offset) cause)
      | .ok (found, taken) =>
        let stop := start + 1 + taken
        (tokens stop (rest.drop taken)).map (⟨found, start, stop⟩ :: ·)
termination_by cs => cs.length

end Scan

/-- The tokens of a text. -/
def Token.ofText {F : Type} [Arith F] (text : String) :
    Except (SyntaxError F) (List (Token F)) :=
  Scan.tokens 0 text.toList

end ScalarSolve.Formula
