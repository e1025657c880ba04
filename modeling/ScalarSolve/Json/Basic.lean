/-!
# JSON values and their text

Values as they are sent.  A number carries its text, so that the writer of a value decides on its
digits.
-/

namespace ScalarSolve

/-- A value to be written as JSON. -/
inductive Json where
  | null
  | bool (value : Bool)
  | number (text : String)
  | string (text : String)
  | array (items : List Json)
  | object (fields : List (String × Json))

namespace Json

def ofNat (n : Nat) : Json := number (toString n)

/-- The value, or null where there is none. -/
def ofOption {α : Type} (f : α → Json) : Option α → Json
  | none => null
  | some a => f a

/-- A code point below 256 in four hexadecimal digits. -/
def hexEscape (n : Nat) : List Char :=
  ['\\', 'u', '0', '0', (Nat.digitChar (n / 16)), (Nat.digitChar (n % 16))]

/-- The characters that stand for one character inside a string. -/
def escaped (c : Char) : List Char :=
  if c == '"' then ['\\', '"']
  else if c == '\\' then ['\\', '\\']
  else if c.toNat < 32 then hexEscape c.toNat
  else [c]

/-- A string between quotes. -/
def quoted (text : String) : String :=
  String.ofList ('"' :: text.toList.flatMap escaped ++ ['"'])

mutual

/-- The text of a value, without blanks. -/
def print : Json → String
  | null => "null"
  | bool true => "true"
  | bool false => "false"
  | number text => text
  | string text => quoted text
  | array items => "[" ++ ",".intercalate (printItems items) ++ "]"
  | object fields => "\x7b" ++ ",".intercalate (printFields fields) ++ "\x7d"

def printItems : List Json → List String
  | [] => []
  | item :: rest => item.print :: printItems rest

def printFields : List (String × Json) → List String
  | [] => []
  | (name, value) :: rest => (quoted name ++ ":" ++ value.print) :: printFields rest

end

end Json

end ScalarSolve
