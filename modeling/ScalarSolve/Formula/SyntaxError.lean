import ScalarSolve.Arith

/-!
# Lexemes and syntax errors

What a formula is written with, and the causes for which a text is no formula.
-/

namespace ScalarSolve.Formula

/-- The smallest parts of a formula. -/
inductive Lexeme (F : Type) where
  | number (value : F)
  | name (text : String)
  | plus
  | minus
  | star
  | slash
  | caret
  | opening
  | closing
deriving DecidableEq, Repr

/-- How a lexeme is named in a message. -/
def Lexeme.describe {F : Type} [Numeral F] : Lexeme F → String
  | number value => "number " ++ Numeral.text value
  | name text => "identifier '" ++ text ++ "'"
  | plus => "'+'"
  | minus => "'-'"
  | star => "'*'"
  | slash => "'/'"
  | caret => "'^'"
  | opening => "'('"
  | closing => "')'"

/-- The most tokens a formula may have. -/
def maxTokens : Nat := 2048

/-- The most nestings that may be open at once. -/
def maxNesting : Nat := 256

/-- The deepest value stack that a compiled formula may need. -/
def maxStackDepth : Nat := 120

/-- Why a text is no formula. -/
inductive SyntaxCause (F : Type) where
  | unexpectedCharacter (c : Char)
  | missingDigits
  | malformedExponent
  | empty
  | tooManyTokens
  | unexpected (found : Lexeme F)
  | endOfInput
  | unclosed
  | notClosed (found : Lexeme F)
  | unknownName (name : String)
  | argumentRequired (function : String)
  | nestedTooDeeply
  | stackTooDeep (depth : Nat)
  /-- A cause in the words of whoever reports it. -/
  | stated (text : String)
deriving DecidableEq, Repr

/-- The sentence for a cause. -/
def SyntaxCause.message {F : Type} [Numeral F] : SyntaxCause F → String
  | unexpectedCharacter c => "unexpected character '" ++ c.toString ++ "'"
  | missingDigits => "expected digits in number"
  | malformedExponent => "malformed exponent in number"
  | empty => "empty expression"
  | tooManyTokens => "expression too long (more than " ++ toString maxTokens ++ " tokens)"
  | unexpected found => "unexpected " ++ found.describe
  | endOfInput => "unexpected end of input"
  | unclosed => "unclosed '(' at end of input"
  | notClosed found => "expected ')' but found " ++ found.describe
  | unknownName name => "unknown identifier '" ++ name ++ "'"
  | argumentRequired function =>
      "function '" ++ function ++ "' requires a parenthesised argument"
  | nestedTooDeeply => "expression nested too deeply"
  | stackTooDeep depth =>
      "expression nested too deeply (needs stack depth " ++ toString depth ++ ", limit "
        ++ toString maxStackDepth ++ ")"
  | stated text => text

/-- A cause, with the byte offset it is found at where there is one. -/
structure SyntaxError (F : Type) where
  cause : SyntaxCause F
  position : Option Nat
deriving DecidableEq, Repr

namespace SyntaxError

variable {F : Type}

def placed (position : Nat) (cause : SyntaxCause F) : SyntaxError F := ⟨cause, some position⟩

def unplaced (cause : SyntaxCause F) : SyntaxError F := ⟨cause, none⟩

/-- The message without the mention of the position. -/
def detail [Numeral F] (e : SyntaxError F) : String := e.cause.message

def message [Numeral F] (e : SyntaxError F) : String :=
  match e.position with
  | some p => "Parse error at position " ++ toString p ++ ": " ++ e.detail
  | none => "Parse error: " ++ e.detail

end SyntaxError

end ScalarSolve.Formula
