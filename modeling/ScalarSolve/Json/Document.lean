import ScalarSolve.Text.Digits

/-!
# Reading JSON

A strict reader of JSON text.  It keeps what it reads as it is written: the digits of numbers, the
escapes of strings, and all fields of an object in their order, repeated ones too.  Whether an
escape names a character and a number fits a type is for those who use them.
-/

namespace ScalarSolve.Json

/-- A number as it is written. -/
structure Literal where
  negative : Bool
  whole : List Char
  /-- The digits after the point. -/
  places : Option (List Char)
  /-- The exponent: whether it is negative, and its digits. -/
  exponent : Option (Bool × List Char)
deriving DecidableEq, Repr

/-- A JSON text that has been read. -/
inductive Document where
  | null
  | bool (value : Bool)
  | number (literal : Literal)
  | string (content : List Char)
  | array (items : List Document)
  | object (fields : List (List Char × Document))

/-- Something read from the front of a text, and what follows it, shorter than `bound`. -/
structure Front (α : Type) (bound : Nat) where
  value : α
  rest : List Char
  within : rest.length < bound

namespace Front

variable {α β : Type}

def widen {n m : Nat} (r : Front α n) (h : n ≤ m) : Front α m :=
  ⟨r.value, r.rest, Nat.lt_of_lt_of_le r.within h⟩

def map {n : Nat} (f : α → β) (r : Front α n) : Front β n :=
  ⟨f r.value, r.rest, r.within⟩

end Front

namespace Document

def isSpace (c : Char) : Bool := c == ' ' || c == '\t' || c == '\n' || c == '\r'

/-- The text after the blanks in front of it. -/
def skip (cs : List Char) : { rest : List Char // rest.length ≤ cs.length } :=
  ⟨cs.dropWhile isSpace, (List.dropWhile_suffix _).length_le⟩

/-- What follows an expected character, past blanks. -/
def expect (c : Char) (cs : List Char) : Option (Front Unit cs.length) :=
  match skip cs with
  | ⟨d :: rest, h⟩ =>
    if d == c then some ⟨(), rest, by simp only [List.length_cons] at h; omega⟩ else none
  | ⟨[], _⟩ => none

/-- The content of a string up to its closing quote, escapes as they are written. -/
def stringTail : (cs : List Char) → Option (Front (List Char) cs.length)
  | [] => none
  | '"' :: rest => some ⟨[], rest, by simp⟩
  | '\\' :: 'u' :: a :: b :: c :: d :: rest =>
    if [a, b, c, d].all Text.isHexDigit then
      (stringTail rest).map fun r ↦
        (r.map ('\\' :: 'u' :: a :: b :: c :: d :: ·)).widen
          (by simp only [List.length_cons]; omega)
    else none
  | '\\' :: c :: rest =>
    if ['"', '\\', '/', 'b', 'f', 'n', 'r', 't'].contains c then
      (stringTail rest).map fun r ↦
        (r.map ('\\' :: c :: ·)).widen (by simp only [List.length_cons]; omega)
    else none
  | c :: rest =>
    if c.toNat < 32 || c == '\\' then none
    else (stringTail rest).map fun r ↦
      (r.map (c :: ·)).widen (by simp only [List.length_cons]; omega)

/-- The digits after a point, if there is one; a point without digits is refused. -/
def places? : List Char → Option (Option (List Char) × Nat)
  | '.' :: rest =>
    let ds := rest.takeWhile Char.isDigit
    if ds.isEmpty then none else some (some ds, ds.length + 1)
  | _ => some (none, 0)

/-- The exponent, if there is one; an exponent without digits is refused. -/
def exponent? : List Char → Option (Option (Bool × List Char) × Nat)
  | c :: rest =>
    if c == 'e' || c == 'E' then
      let (negative, signLength) := match rest with
        | '-' :: _ => (true, 1)
        | '+' :: _ => (false, 1)
        | _ => (false, 0)
      let ds := (rest.drop signLength).takeWhile Char.isDigit
      if ds.isEmpty then none else some (some (negative, ds), signLength + ds.length + 1)
    else some (none, 0)
  | [] => some (none, 0)

/-- The whole part of a number: zero alone, or digits that do not start with it. -/
def whole? (cs : List Char) : Option (List Char) :=
  match cs.takeWhile Char.isDigit with
  | [] => none
  | '0' :: _ :: _ => none
  | ds => some ds

/-- A number and its length. -/
def literal? (cs : List Char) : Option (Literal × Nat) := do
  let (negative, signLength) := match cs with
    | '-' :: _ => (true, 1)
    | _ => (false, 0)
  let whole ← whole? (cs.drop signLength)
  let afterWhole := cs.drop (signLength + whole.length)
  let (places, placesLength) ← places? afterWhole
  let (exponent, exponentLength) ← exponent? (afterWhole.drop placesLength)
  return (⟨negative, whole, places, exponent⟩,
    signLength + whole.length + placesLength + exponentLength)

/-- The words that are values. -/
def words : List (List Char × Document) :=
  [(['n', 'u', 'l', 'l'], null), (['t', 'r', 'u', 'e'], bool true),
    (['f', 'a', 'l', 's', 'e'], bool false)]

/-- A word or a number, and its length. -/
def simple? (cs : List Char) : Option (Document × Nat) :=
  match words.find? fun (word, _) ↦ word.isPrefixOf cs with
  | some (word, d) => some (d, word.length)
  | none => (literal? cs).map fun (l, n) ↦ (number l, n)

/-- A word or a number at the front of a text. -/
def simple (cs : List Char) : Option (Front Document cs.length) :=
  match simple? cs with
  | none => none
  | some (d, n) =>
    if h : 0 < n ∧ 0 < cs.length then
      some ⟨d, cs.drop n, by simp only [List.length_drop]; omega⟩
    else none

mutual

/-- A value past the blanks in front of it. -/
def value (cs : List Char) : Option (Front Document cs.length) :=
  match skip cs with
  | ⟨[], _⟩ => none
  | ⟨c :: rest, h⟩ =>
    have shorter : rest.length < cs.length := h
    if c == '"' then
      (stringTail rest).map fun r ↦ (r.map string).widen (Nat.le_of_lt shorter)
    else if c == '[' then
      match expect ']' rest with
      | some r => some ((r.map fun _ ↦ array []).widen (Nat.le_of_lt shorter))
      | none => (items rest).map fun r ↦ (r.map array).widen (Nat.le_of_lt shorter)
    else if c == '\x7b' then
      match expect '\x7d' rest with
      | some r => some ((r.map fun _ ↦ object []).widen (Nat.le_of_lt shorter))
      | none => (fields rest).map fun r ↦ (r.map object).widen (Nat.le_of_lt shorter)
    else (simple (c :: rest)).map (·.widen h)
termination_by 2 * cs.length
decreasing_by all_goals omega

/-- The items of an array up to its closing bracket. -/
def items (cs : List Char) : Option (Front (List Document) cs.length) :=
  match value cs with
  | none => none
  | some first =>
    match expect ']' first.rest with
    | some r => some ((r.map fun _ ↦ [first.value]).widen (Nat.le_of_lt first.within))
    | none =>
      match expect ',' first.rest with
      | none => none
      | some comma =>
        (items comma.rest).map fun r ↦ (r.map (first.value :: ·)).widen
          (by have := first.within; have := comma.within; omega)
termination_by 2 * cs.length + 1
decreasing_by
  · omega
  · have := first.within; have := comma.within; omega

/-- The fields of an object up to its closing brace. -/
def fields (cs : List Char) : Option (Front (List (List Char × Document)) cs.length) :=
  match expect '"' cs with
  | none => none
  | some opening =>
    match stringTail opening.rest with
    | none => none
    | some name =>
      match expect ':' name.rest with
      | none => none
      | some colon =>
        match value colon.rest with
        | none => none
        | some first =>
          have h : first.rest.length < cs.length := by
            have := opening.within; have := name.within
            have := colon.within; have := first.within
            omega
          match expect '\x7d' first.rest with
          | some r => some ((r.map fun _ ↦ [(name.value, first.value)]).widen (Nat.le_of_lt h))
          | none =>
            match expect ',' first.rest with
            | none => none
            | some comma =>
              (fields comma.rest).map fun r ↦ (r.map ((name.value, first.value) :: ·)).widen
                (by have := comma.within; omega)
termination_by 2 * cs.length + 1
decreasing_by
  · have := opening.within; have := name.within; have := colon.within; omega
  · have := comma.within; omega

end

/-- A whole text, with nothing but blanks around its value. -/
def ofText? (text : String) : Option Document :=
  match value text.toList with
  | some r => if (skip r.rest).val.isEmpty then some r.value else none
  | none => none

/-- The character for the letter of a short escape. -/
def shortEscape (c : Char) : Char :=
  match c with
  | 'b' => '\x08'
  | 'f' => '\x0c'
  | 'n' => '\n'
  | 'r' => '\r'
  | 't' => '\t'
  | c => c

def isLeadSurrogate (n : Nat) : Bool := 0xD800 ≤ n && n < 0xDC00

def isTrailSurrogate (n : Nat) : Bool := 0xDC00 ≤ n && n < 0xE000

/-- The characters that the content of a string stands for; half a surrogate pair is none. -/
def unescape : List Char → Option (List Char)
  | [] => some []
  | '\\' :: 'u' :: a :: b :: c :: d :: rest =>
    let n := Text.hexValue [a, b, c, d]
    if isTrailSurrogate n then none
    else if isLeadSurrogate n then
      match rest with
      | '\\' :: 'u' :: a' :: b' :: c' :: d' :: rest =>
        let m := Text.hexValue [a', b', c', d']
        if isTrailSurrogate m then
          (unescape rest).map (Char.ofNat (0x10000 + (n - 0xD800) * 0x400 + (m - 0xDC00)) :: ·)
        else none
      | _ => none
    else (unescape rest).map (Char.ofNat n :: ·)
  | '\\' :: c :: rest => (unescape rest).map (shortEscape c :: ·)
  | c :: rest => (unescape rest).map (c :: ·)

/-- The text that a string stands for. -/
def text? : Document → Option String
  | string content => (unescape content).map String.ofList
  | _ => none

end Document

end ScalarSolve.Json
