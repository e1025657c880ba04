import ScalarSolve.Formula.SyntaxError
import ScalarSolve.Formula.Tree

/-!
# Phrases

The grammar of formulas as a type.  A phrase shows how lexemes belong together; it is read off as
the lexemes it consists of, as the tree it stands for, and as the number of nestings that it needs.
Sums and products gather to the left and powers to the right, and signs bind tighter than powers.
-/

namespace ScalarSolve.Formula

/-- The kinds of phrases, from loosest to tightest. -/
inductive Category where
  | sum
  | product
  | power
  | signed
  | atom
deriving DecidableEq, Repr

/-- A phrase of a category. -/
inductive Phrase (F : Type) [Arith F] : Category → Type where
  | product (p : Phrase F .product) : Phrase F .sum
  | add (l : Phrase F .sum) (r : Phrase F .product) : Phrase F .sum
  | sub (l : Phrase F .sum) (r : Phrase F .product) : Phrase F .sum
  | power (p : Phrase F .power) : Phrase F .product
  | mul (l : Phrase F .product) (r : Phrase F .power) : Phrase F .product
  | div (l : Phrase F .product) (r : Phrase F .power) : Phrase F .product
  | signed (p : Phrase F .signed) : Phrase F .power
  | pow (base : Phrase F .signed) (exponent : Phrase F .power) : Phrase F .power
  | atom (p : Phrase F .atom) : Phrase F .signed
  | plus (p : Phrase F .signed) : Phrase F .signed
  | minus (p : Phrase F .signed) : Phrase F .signed
  | number (value : F) : Phrase F .atom
  | leaf (name : String) (tree : Tree F) (named : Tree.ofName? name = some tree) : Phrase F .atom
  | call (name : String) (f : Elementary) (named : Elementary.ofName? name = some f)
      (argument : Phrase F .sum) : Phrase F .atom
  | group (p : Phrase F .sum) : Phrase F .atom

namespace Phrase

variable {F : Type} [Arith F]

/-- The lexemes that a phrase consists of. -/
def lexemes : {c : Category} → Phrase F c → List (Lexeme F)
  | _, product p | _, power p | _, signed p | _, atom p => p.lexemes
  | _, add l r => l.lexemes ++ .plus :: r.lexemes
  | _, sub l r => l.lexemes ++ .minus :: r.lexemes
  | _, mul l r => l.lexemes ++ .star :: r.lexemes
  | _, div l r => l.lexemes ++ .slash :: r.lexemes
  | _, pow base exponent => base.lexemes ++ .caret :: exponent.lexemes
  | _, plus p => .plus :: p.lexemes
  | _, minus p => .minus :: p.lexemes
  | _, number value => [.number value]
  | _, leaf name _ _ => [.name name]
  | _, call name _ _ argument => .name name :: .opening :: argument.lexemes ++ [.closing]
  | _, group p => .opening :: p.lexemes ++ [.closing]

/-- The tree that a phrase stands for.  Plus signs and parentheses leave no node. -/
def tree : {c : Category} → Phrase F c → Tree F
  | _, product p | _, power p | _, signed p | _, atom p | _, plus p | _, group p => p.tree
  | _, add l r => .binary .add l.tree r.tree
  | _, sub l r => .binary .sub l.tree r.tree
  | _, mul l r => .binary .mul l.tree r.tree
  | _, div l r => .binary .div l.tree r.tree
  | _, pow base exponent => .binary .pow base.tree exponent.tree
  | _, minus p => .neg p.tree
  | _, number value => .number value
  | _, leaf _ tree _ => tree
  | _, call _ f _ argument => .call f argument.tree

/-- The most nestings that are open at once: parentheses, operands of signs, and exponents. -/
def nesting : {c : Category} → Phrase F c → Nat
  | _, product p | _, power p | _, signed p | _, atom p => p.nesting
  | _, add l r | _, sub l r => max l.nesting r.nesting
  | _, mul l r | _, div l r => max l.nesting r.nesting
  | _, pow base exponent => max base.nesting (exponent.nesting + 1)
  | _, plus p | _, minus p => p.nesting + 1
  | _, number _ | _, leaf _ _ _ => 0
  | _, call _ _ _ argument => argument.nesting + 1
  | _, group p => p.nesting + 1

end Phrase

end ScalarSolve.Formula
