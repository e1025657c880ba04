import ScalarSolve.Decimal.Nearest
import ScalarSolve.Text.Digits

/-!
# TOML

A reader of the part of TOML that settings files are written in: comments, tables, and lines that
give a name a string, an integer, a float or a boolean.
-/

namespace ScalarSolve.Toml

/-- A value.  Of a float only its being one is kept. -/
inductive Value where
  | string (text : String)
  | integer (value : Int)
  | float
  | boolean (value : Bool)
deriving DecidableEq, Repr

/-- The names on the way to a value or a table. -/
abbrev Key := List String

/-- What a file says: which tables there are, and the values, under the key of their table and their
own name. -/
structure Contents where
  tables : List Key
  values : List (Key × Value)
deriving Repr

def isSpace (c : Char) : Bool := c == ' ' || c == '\t'

def skip (cs : List Char) : List Char := cs.dropWhile isSpace

/-- A character that may stand in a comment or a string. -/
def isPlain (c : Char) : Bool := c == '\t' || (32 ≤ c.toNat && c.toNat ≠ 127)

def isBare (c : Char) : Bool := c.isAlphanum || c == '_' || c == '-'

/-- Nothing but blanks and a comment is left of a line. -/
def lineEnds (cs : List Char) : Bool :=
  match skip cs with
  | [] => true
  | '#' :: rest => rest.all isPlain
  | _ => false

/-- The character whose code point is written in so many hexadecimal digits. -/
def hexEscape? (size : Nat) (cs : List Char) : Option Char :=
  let ds := cs.take size
  let n := Text.hexValue ds
  if ds.length = size ∧ ds.all Text.isHexDigit ∧ n.isValidChar then some (Char.ofNat n) else none

/-- The character of a short escape. -/
def shortEscape? : Char → Option Char
  | '"' => some '"'
  | '\\' => some '\\'
  | 'b' => some '\x08'
  | 'f' => some '\x0c'
  | 'n' => some '\n'
  | 'r' => some '\r'
  | 't' => some '\t'
  | _ => none

/-- The rest of a string with escapes, up to its closing quote, and what follows it. -/
def basicTail : List Char → Option (List Char × List Char)
  | [] => none
  | '"' :: rest => some ([], rest)
  | '\\' :: c :: rest =>
    let (escape, taken) := match c with
      | 'u' => (hexEscape? 4 rest, 4)
      | 'U' => (hexEscape? 8 rest, 8)
      | c => (shortEscape? c, 0)
    match escape with
    | none => none
    | some d => (basicTail (rest.drop taken)).map fun (text, after) ↦ (d :: text, after)
  | c :: rest =>
    if isPlain c && c != '\\' then
      (basicTail rest).map fun (text, after) ↦ (c :: text, after)
    else none
termination_by cs => cs.length
decreasing_by all_goals simp only [List.length_cons, List.length_drop]; omega

/-- A string at the front of a text. -/
def string? : List Char → Option (String × List Char)
  | '"' :: rest => (basicTail rest).map fun (text, after) ↦ (String.ofList text, after)
  | '\'' :: rest =>
    let text := rest.takeWhile (· != '\'')
    match rest.drop text.length with
    | _ :: after => if text.all isPlain then some (String.ofList text, after) else none
    | [] => none
  | _ => none

/-- Digits with single underscores between them. -/
def digits? : List Char → Option (List Char)
  | [] => none
  | c :: rest =>
    if !c.isDigit then none
    else match rest with
      | [] => some [c]
      | '_' :: more => (digits? more).map (c :: ·)
      | more => (digits? more).map (c :: ·)

/-- Digits without a zero in front of others. -/
def wholeDigits? (cs : List Char) : Option (List Char) :=
  match digits? cs with
  | some ('0' :: _ :: _) => none
  | ds => ds

/-- Integers take up 64 bits with a sign. -/
def integer? (negative : Bool) (cs : List Char) : Option Value := do
  let n : Int := Text.decimalValue (← wholeDigits? cs)
  let value := if negative then -n else n
  let limit : Int := 0x8000000000000000
  if -limit ≤ value && value < limit then some (.integer value) else none

/-- The text after a sign. -/
def unsigned : List Char → List Char
  | '+' :: rest | '-' :: rest => rest
  | cs => cs

def isMinus (cs : List Char) : Bool := cs.head? == some '-'

/-- An exponent behind its letter: a sign and digits. -/
def exponent? (cs : List Char) : Option Int := do
  let n : Int := Text.decimalValue (← digits? (unsigned cs))
  return if isMinus cs then -n else n

/-- An exponent with its letter; nothing stands for zero. -/
def exponentPart? : List Char → Option Int
  | [] => some 0
  | c :: rest => if c == 'e' || c == 'E' then exponent? rest else none

/-- What follows the whole part of a float: the places behind the point, and an exponent. -/
def floatTail? : List Char → Option (List Char × Int)
  | '.' :: rest => do
    let places := rest.takeWhile fun c ↦ c.isDigit || c == '_'
    return (← digits? places, ← exponentPart? (rest.drop places.length))
  | cs => (exponentPart? cs).map ([], ·)

/-- A float.  A positive one beyond the finite range is refused, a negative one is not. -/
def float? (negative : Bool) (whole tail : List Char) : Option Value := do
  let whole ← wholeDigits? whole
  let (places, exponent) ← floatTail? tail
  let coefficient := Text.decimalValue (whole ++ places)
  let bits := Decimal.decimalBits coefficient (exponent - places.length)
  if bits = Decimal.infinityBits ∧ !negative then none else some .float

/-- A number as it stands between blanks. -/
def number? (cs : List Char) : Option Value :=
  let body := unsigned cs
  if body = ['i', 'n', 'f'] ∨ body = ['n', 'a', 'n'] then some .float
  else
    let whole := body.takeWhile fun c ↦ c.isDigit || c == '_'
    match body.drop whole.length with
    | [] => integer? (isMinus cs) body
    | tail => float? (isMinus cs) whole tail

/-- A value at the front of a text. -/
def value? (cs : List Char) : Option (Value × List Char) :=
  match string? cs with
  | some (text, rest) => some (.string text, rest)
  | none =>
    let word := cs.takeWhile fun c ↦ isBare c || c == '+' || c == '.'
    let rest := cs.drop word.length
    if word = ['t', 'r', 'u', 'e'] then some (.boolean true, rest)
    else if word = ['f', 'a', 'l', 's', 'e'] then some (.boolean false, rest)
    else (number? word).map (·, rest)

/-- One name of a key, bare or quoted. -/
def name? (cs : List Char) : Option (String × List Char) :=
  match string? cs with
  | some r => some r
  | none =>
    let word := cs.takeWhile isBare
    if word.isEmpty then none else some (String.ofList word, cs.drop word.length)

/-- The names of a table joined by points, at the front of a text; `left` bounds their number. -/
def key? : (left : Nat) → List Char → Option (Key × List Char)
  | 0, _ => none
  | left + 1, cs =>
    match name? (skip cs) with
    | none => none
    | some (name, rest) =>
      match skip rest with
      | '.' :: more => (key? left more).map fun (key, after) ↦ (name :: key, after)
      | rest => some ([name], rest)

/-- What a line says. -/
inductive Line where
  | blank
  | table (key : Key)
  | entry (name : String) (value : Value)

/-- A name, an equals sign and a value. -/
def entry? (cs : List Char) : Option Line :=
  match name? cs with
  | none => none
  | some (name, rest) =>
    match skip rest with
    | '=' :: after =>
      match value? (skip after) with
      | some (value, rest) => if lineEnds rest then some (.entry name value) else none
      | none => none
    | _ => none

def line? (cs : List Char) : Option Line :=
  if lineEnds cs then some .blank
  else match skip cs with
    | '[' :: rest =>
      match key? rest.length rest with
      | some (key, ']' :: after) => if lineEnds after then some (.table key) else none
      | _ => none
    | cs => entry? cs

/-- A text without the byte order mark that it may start with. -/
def withoutMark (text : String) : String :=
  match text.toList with
  | c :: rest => if c.toNat = 0xFEFF then String.ofList rest else text
  | [] => text

/-- A line without the carriage return that belongs to its end. -/
def withoutReturn (cs : List Char) : List Char :=
  if cs.getLast? == some '\r' then cs.dropLast else cs

/-- The lines of a text; the last one has no end. -/
def lines (text : String) : List (List Char) :=
  let ls := (text.splitOn "\n").map String.toList
  ls.dropLast.map withoutReturn ++ ls.getLast?.toList

namespace Contents

def empty : Contents := ⟨[], []⟩

/-- A table is opened once, and not where a value stands. -/
def admitsTable (c : Contents) (key : Key) : Bool :=
  !c.tables.contains key && !c.values.any fun (other, _) ↦ other.isPrefixOf key

/-- A value is given once, and not where a table stands. -/
def admitsValue (c : Contents) (key : Key) : Bool :=
  !c.values.any (fun (other, _) ↦ other == key) && !c.tables.any fun table ↦ key.isPrefixOf table

/-- One more line, in the table that is open. -/
def add (state : Contents × Key) (line : Line) : Option (Contents × Key) :=
  let (c, openTable) := state
  match line with
  | .blank => some state
  | .table key =>
    if c.admitsTable key then some ({ c with tables := key :: c.tables }, key) else none
  | .entry name value =>
    let key := openTable ++ [name]
    if c.admitsValue key then some ({ c with values := (key, value) :: c.values }, openTable)
    else none

/-- The value of a name outside all tables. -/
def top? (c : Contents) (name : String) : Option Value :=
  c.values.lookup [name]

/-- Whether a name outside all tables is that of a table. -/
def isTable (c : Contents) (name : String) : Bool :=
  c.tables.any (fun key ↦ key.head? == some name)

/-- The contents of a file. -/
def ofText? (text : String) : Option Contents := do
  let ls ← (lines (withoutMark text)).mapM line?
  return (← ls.foldlM add (empty, [])).1

end Contents

end ScalarSolve.Toml
