import ScalarSolve.Formula.Token
import ScalarSolve.Formula.Tree

/-!
# Reading formulas

A sum is a chain of products, a product a chain of powers; a power has a signed operand as its base
and, to the right of the caret, a power again.  Signs bind tighter than the caret.

Parentheses, the argument of a function, the operand of a sign and the exponent of a power are
nestings.  The rules inside a nesting are those with one nesting fewer to spend, so reading ends by
recursion on the allowance, and chains end because every operand takes a token.
-/

namespace ScalarSolve.Formula

/-- A tree read from the front of some tokens, and the tokens after it, fewer than `bound`. -/
structure Reading (F : Type) (bound : Nat) where
  tree : Tree F
  rest : List (Token F)
  within : rest.length < bound

/-- A rule reads a tree from at least one token. -/
abbrev Rule (F : Type) := (ts : List (Token F)) → Except (SyntaxError F) (Reading F ts.length)

/-- The rules that a nesting may start with. -/
structure Rules (F : Type) where
  sum : Rule F
  power : Rule F
  signed : Rule F

namespace Reading

variable {F : Type}

def widen {n m : Nat} (r : Reading F n) (h : n ≤ m) : Reading F m :=
  ⟨r.tree, r.rest, Nat.lt_of_lt_of_le r.within h⟩

def map {n : Nat} (f : Tree F → Tree F) (r : Reading F n) : Reading F n :=
  { r with tree := f r.tree }

end Reading

namespace Rules

variable {F : Type}

def additive? : Lexeme F → Option Operator
  | .plus => some .add
  | .minus => some .sub
  | _ => none

def multiplicative? : Lexeme F → Option Operator
  | .star => some .mul
  | .slash => some .div
  | _ => none

/-- Operators with operands to their right, gathered to the left. -/
def chain (operator? : Lexeme F → Option Operator) (operand : Rule F) (left : Tree F) :
    (ts : List (Token F)) → Except (SyntaxError F) (Reading F (ts.length + 1))
  | [] => .ok ⟨left, [], by simp⟩
  | t :: rest =>
    match operator? t.lexeme with
    | none => .ok ⟨left, t :: rest, by simp⟩
    | some op =>
      match operand rest with
      | .error e => .error e
      | .ok right =>
        (chain operator? operand (.binary op left right.tree) right.rest).map
          (·.widen (by have := right.within; simp only [List.length_cons]; omega))
termination_by ts => ts.length
decreasing_by have := right.within; simp only [List.length_cons]; omega

/-- One operand, then a chain. -/
def chained (operator? : Lexeme F → Option Operator) (operand : Rule F) : Rule F := fun ts ↦
  match operand ts with
  | .error e => .error e
  | .ok first =>
    (chain operator? operand first.tree first.rest).map (·.widen first.within)

/-- The rules inside a nesting that opens at a position. -/
def enter (inner : Option (Rules F)) (position : Nat) : Except (SyntaxError F) (Rules F) :=
  match inner with
  | some rules => .ok rules
  | none => .error (.placed position .nestedTooDeeply)

/-- A sum and the parenthesis that closes it, after one that opens at `position`. -/
def enclosed (inner : Option (Rules F)) (position : Nat) : Rule F := fun ts ↦ do
  let rules ← enter inner position
  let body ← rules.sum ts
  match h : body.rest with
  | [] => .error (.placed position .unclosed)
  | t :: rest =>
    match t.lexeme with
    | .closing =>
      .ok ⟨body.tree, rest, by have := body.within; rw [h, List.length_cons] at this; omega⟩
    | found => .error (.placed t.start (.notClosed found))

/-- What follows a name at `position`: an argument if it names a function. -/
def named [Arith F] (inner : Option (Rules F)) (position : Nat) (name : String)
    (ts : List (Token F)) : Except (SyntaxError F) (Reading F (ts.length + 1)) :=
  match Elementary.ofName? name with
  | some f =>
    match ts with
    | ⟨.opening, start, _⟩ :: rest =>
      (enclosed inner start rest).map fun r ↦
        (r.map (.call f)).widen (by simp only [List.length_cons]; omega)
    | _ => .error (.placed position (.argumentRequired name))
  | none =>
    match Tree.ofName? name with
    | some leaf => .ok ⟨leaf, ts, Nat.lt_succ_self _⟩
    | none => .error (.placed position (.unknownName name))

/-- A number, a name or a parenthesised sum; `stop` is where the text ends. -/
def atom [Arith F] (stop : Nat) (inner : Option (Rules F)) : Rule F
  | [] => .error (.placed stop .endOfInput)
  | t :: rest =>
    match t.lexeme with
    | .number value => .ok ⟨.number value, rest, by simp⟩
    | .name name => named inner t.start name rest
    | .opening => (enclosed inner t.start rest).map (·.widen (by simp))
    | found => .error (.placed t.start (.unexpected found))

/-- What a sign does to its operand. -/
def sign? : Lexeme F → Option (Tree F → Tree F)
  | .plus => some id
  | .minus => some .neg
  | _ => none

/-- Signs before an atom. -/
def signedAtom [Arith F] (stop : Nat) (inner : Option (Rules F)) : Rule F
  | [] => atom stop inner []
  | t :: rest =>
    match sign? t.lexeme with
    | none => atom stop inner (t :: rest)
    | some apply =>
      match enter inner t.start with
      | .error e => .error e
      | .ok rules =>
        (rules.signed rest).map fun r ↦ (r.map apply).widen (by simp)

/-- A base, and behind a caret the power that is its exponent. -/
def raised [Arith F] (stop : Nat) (inner : Option (Rules F)) : Rule F := fun ts ↦
  match signedAtom stop inner ts with
  | .error e => .error e
  | .ok base =>
    match h : base.rest with
    | ⟨.caret, start, _⟩ :: rest =>
      match enter inner start with
      | .error e => .error e
      | .ok rules =>
        (rules.power rest).map fun r ↦ (r.map (.binary .pow base.tree)).widen
          (by have := base.within; rw [h, List.length_cons] at this; omega)
    | _ => .ok base

/-- The rules at one level, from those inside a nesting. -/
def around [Arith F] (stop : Nat) (inner : Option (Rules F)) : Rules F :=
  { sum := chained additive? (chained multiplicative? (raised stop inner))
    power := raised stop inner
    signed := signedAtom stop inner }

/-- The rules with an allowance of nestings. -/
def allowing [Arith F] (stop : Nat) : Nat → Rules F
  | 0 => around stop none
  | allowance + 1 => around stop (some (allowing stop allowance))

end Rules

namespace Tree

variable {F : Type} [Arith F]

/-- The tree of a formula that takes up all of its tokens, in a text of `stop` bytes. -/
def ofTokens (stop : Nat) (ts : List (Token F)) : Except (SyntaxError F) (Tree F) :=
  if ts.isEmpty then .error (.unplaced .empty)
  else
    match ts[maxTokens]? with
    | some t => .error (.placed t.start .tooManyTokens)
    | none => do
      let r ← (Rules.allowing stop maxNesting).sum ts
      match r.rest with
      | [] => .ok r.tree
      | t :: _ => .error (.placed t.start (.unexpected t.lexeme))

/-- The tree of a formula. -/
def ofText (text : String) : Except (SyntaxError F) (Tree F) := do
  ofTokens text.utf8ByteSize (← Token.ofText text)

end Tree

end ScalarSolve.Formula
