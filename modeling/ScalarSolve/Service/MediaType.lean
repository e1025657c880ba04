/-!
# Media types

Which bodies are taken for JSON: those of the type `application/json`, or of another `application`
type with the suffix `json`, with or without parameters.
-/

namespace ScalarSolve.MediaType

/-- A character of a name. -/
def isToken (c : Char) : Bool :=
  c.isAlphanum || ['!', '#', '$', '%', '&', '\'', '*', '+', '-', '.', '^', '_', '|', '~'].contains c
    || c.toNat == 96

/-- A character that may stand between quotes. -/
def isQuotable (c : Char) : Bool := 32 ≤ c.toNat && c.toNat < 127

/-- What follows a quoted text and the blanks behind it.  The text is not empty, so a quote right
after the opening one belongs to it. -/
def afterQuoted? : List Char → Option (List Char)
  | [] => none
  | first :: rest =>
    let tail := rest.takeWhile (· != '"')
    match rest.drop tail.length with
    | _ :: after =>
      if isQuotable first && tail.all isQuotable then some (after.dropWhile (· == ' ')) else none
    | [] => none

/-- What follows a value, quoted or not; only at the end of the text may it be empty. -/
def afterValue? : List Char → Option (List Char)
  | '"' :: rest => afterQuoted? rest
  | cs =>
    let value := cs.takeWhile isToken
    match value.isEmpty, cs.drop value.length with
    | true, _ :: _ => none
    | _, rest => some rest

/-- Parameters up to the end of the text: names with a value each, after semicolons; `left` bounds
their number. -/
def areParameters : (left : Nat) → List Char → Bool
  | 0, _ => false
  | left + 1, cs =>
    match cs.dropWhile (· == ' ') with
    | [] => true
    | cs =>
      let name := cs.takeWhile isToken
      match name.isEmpty, cs.drop name.length with
      | false, '=' :: rest =>
        match afterValue? rest with
        | some [] => true
        | some (';' :: more) => areParameters left more
        | _ => false
      | _, _ => false

/-- The positions of the plus signs after the first character. -/
def plusSigns (sub : List Char) : List Nat :=
  (List.range sub.length).filter fun i ↦ 0 < i && sub[i]? == some '+'

/-- A subtype that is `json`, before or after its last plus sign. -/
def isJsonSubtype (sub : List Char) : Bool :=
  let json := ['j', 's', 'o', 'n']
  match (plusSigns sub).getLast? with
  | some i => sub.take i == json || sub.drop (i + 1) == json
  | none => sub == json

/-- Whether a body with this content type is taken for JSON. -/
def isJson (contentType : String) : Bool :=
  let cs := contentType.toList.map Char.toLower
  let top := cs.takeWhile isToken
  match cs.drop top.length with
  | '/' :: rest =>
    let sub := rest.takeWhile isToken
    let ends := match rest.drop sub.length with
      | [] => true
      | ';' :: parameters => areParameters (parameters.length + 1) parameters
      | _ => false
    String.ofList top == "application" && isJsonSubtype sub && ends
  | _ => false

end ScalarSolve.MediaType
