import ScalarSolve.Formula.Parser
import ScalarSolve.Formula.Phrase
import Mathlib.Logic.Function.Basic

/-!
# Sums and products, tier by tier

Sums are to products what products are to powers: phrases that gather to the left under two
operators.  Such a *tier* of the grammar is described here once.  A phrase leans to the left, but
from left to right it is a first operand with *links* after it, an operator and an operand each, and
that is the order in which it is read.
-/

namespace ScalarSolve.Formula

variable {F : Type} [Arith F]

/-! ## Where phrases stop -/

namespace Category

/-- The lexemes that make a phrase of the category longer. -/
def continues : Category → Lexeme F → Bool
  | sum, .plus | sum, .minus => true
  | sum, .star | product, .star | sum, .slash | product, .slash => true
  | sum, .caret | product, .caret | power, .caret => true
  | _, _ => false

/-- What comes next does not make a phrase of the category longer. -/
def Stops (c : Category) : List (Lexeme F) → Prop
  | [] => True
  | l :: _ => c.continues l = false

omit [Arith F] in
@[simp] theorem stops_nil (c : Category) : c.Stops ([] : List (Lexeme F)) := trivial

omit [Arith F] in
@[simp] theorem stops_cons (c : Category) (l : Lexeme F) (ls : List (Lexeme F)) :
    c.Stops (l :: ls) ↔ c.continues l = false := Iff.rfl

omit [Arith F] in
@[simp] theorem stops_atom (ls : List (Lexeme F)) : atom.Stops ls := by
  cases ls <;> simp [continues]

omit [Arith F] in
@[simp] theorem stops_signed (ls : List (Lexeme F)) : signed.Stops ls := by
  cases ls <;> simp [continues]

end Category

/-! ## Tiers -/

/-- A category of phrases that gather to the left under two operators. -/
structure Tier (F : Type) [Arith F] where
  whole : Category
  operand : Category
  single : Phrase F operand → Phrase F whole
  join : Bool → Phrase F whole → Phrase F operand → Phrase F whole
  mark : Bool → Lexeme F
  operator : Bool → Operator
  operator? : Lexeme F → Option Operator
  operator?_eq_some : ∀ {l op}, operator? l = some op ↔ ∃ b, l = mark b ∧ op = operator b
  mark_inj : ∀ {b b'}, mark b = mark b' → b = b'
  lexemes_single : ∀ p, (single p).lexemes = p.lexemes
  lexemes_join : ∀ b l r, (join b l r).lexemes = l.lexemes ++ mark b :: r.lexemes
  tree_single : ∀ p, (single p).tree = p.tree
  tree_join : ∀ b l r, (join b l r).tree = .binary (operator b) l.tree r.tree
  nesting_single : ∀ p, (single p).nesting = p.nesting
  nesting_join : ∀ b l r, (join b l r).nesting = max l.nesting r.nesting
  induct : ∀ {motive : Phrase F whole → Prop}, (∀ p, motive (single p)) →
    (∀ b l r, motive l → motive (join b l r)) → ∀ p, motive p
  continues_mark : ∀ b, operand.continues (mark b) = false
  continues_whole : ∀ l, whole.continues l = (operand.continues l || (operator? l).isSome)

namespace Phrase

theorem product_induct {motive : Phrase F .product → Prop} (power : ∀ p, motive (.power p))
    (mul : ∀ l r, motive l → motive (.mul l r)) (div : ∀ l r, motive l → motive (.div l r)) :
    ∀ p, motive p
  | .power p => power p
  | .mul l r => mul l r (product_induct power mul div l)
  | .div l r => div l r (product_induct power mul div l)
termination_by p => sizeOf p

theorem sum_induct {motive : Phrase F .sum → Prop} (product : ∀ p, motive (.product p))
    (add : ∀ l r, motive l → motive (.add l r)) (sub : ∀ l r, motive l → motive (.sub l r)) :
    ∀ p, motive p
  | .product p => product p
  | .add l r => add l r (sum_induct product add sub l)
  | .sub l r => sub l r (sum_induct product add sub l)
termination_by p => sizeOf p

end Phrase

namespace Tier

/-- Products of powers. -/
def products : Tier F where
  whole := .product
  operand := .power
  single := .power
  join := fun b ↦ if b then .div else .mul
  mark := fun b ↦ if b then .slash else .star
  operator := fun b ↦ if b then .div else .mul
  operator? := Rules.multiplicative?
  operator?_eq_some := by
    intro l op
    cases l <;> simp [Rules.multiplicative?, eq_comm]
  mark_inj := by
    intro b b' h
    cases b <;> cases b' <;> simp at h ⊢
  lexemes_single := fun _ ↦ rfl
  lexemes_join := by rintro (_ | _) _ _ <;> rfl
  tree_single := fun _ ↦ rfl
  tree_join := by rintro (_ | _) _ _ <;> rfl
  nesting_single := fun _ ↦ rfl
  nesting_join := by rintro (_ | _) _ _ <;> rfl
  induct := fun single join ↦ Phrase.product_induct single (join false) (join true)
  continues_mark := by rintro (_ | _) <;> rfl
  continues_whole := by rintro (_ | _) <;> rfl

/-- Sums of products. -/
def sums : Tier F where
  whole := .sum
  operand := .product
  single := .product
  join := fun b ↦ if b then .sub else .add
  mark := fun b ↦ if b then .minus else .plus
  operator := fun b ↦ if b then .sub else .add
  operator? := Rules.additive?
  operator?_eq_some := by
    intro l op
    cases l <;> simp [Rules.additive?, eq_comm]
  mark_inj := by
    intro b b' h
    cases b <;> cases b' <;> simp at h ⊢
  lexemes_single := fun _ ↦ rfl
  lexemes_join := by rintro (_ | _) _ _ <;> rfl
  tree_single := fun _ ↦ rfl
  tree_join := by rintro (_ | _) _ _ <;> rfl
  nesting_single := fun _ ↦ rfl
  nesting_join := by rintro (_ | _) _ _ <;> rfl
  induct := fun single join ↦ Phrase.sum_induct single (join false) (join true)
  continues_mark := by rintro (_ | _) <;> rfl
  continues_whole := by rintro (_ | _) <;> rfl

variable (t : Tier F)

@[simp] theorem operator?_mark (b : Bool) : t.operator? (t.mark b) = some (t.operator b) :=
  t.operator?_eq_some.mpr ⟨b, rfl, rfl⟩

theorem continues_whole_mark (b : Bool) : t.whole.continues (t.mark b) = true := by
  rw [continues_whole, operator?_mark, Option.isSome_some, Bool.or_true]

/-- What stops a phrase of the tier stops its last operand. -/
theorem stops_operand {ls : List (Lexeme F)} (h : t.whole.Stops ls) : t.operand.Stops ls := by
  cases ls with
  | nil => trivial
  | cons l ls =>
      rw [Category.stops_cons, continues_whole, Bool.or_eq_false_iff] at h
      exact h.1

/-- What stops a phrase of the tier is no operator of it. -/
theorem operator?_of_stops {l : Lexeme F} {ls : List (Lexeme F)} (h : t.whole.Stops (l :: ls)) :
    t.operator? l = none := by
  rw [Category.stops_cons, continues_whole, Bool.or_eq_false_iff] at h
  exact Option.isSome_eq_false_iff.mp h.2 |> Option.isNone_iff_eq_none.mp

/-! ## Links -/

/-- An operator and the operand to its right. -/
abbrev Link := Bool × Phrase F t.operand

variable {t}

/-- A phrase made longer by links. -/
def extend : Phrase F t.whole → List t.Link → Phrase F t.whole
  | p, [] => p
  | p, (b, r) :: links => extend (t.join b p r) links

/-- The lexemes of links. -/
def lexemes : List t.Link → List (Lexeme F)
  | [] => []
  | (b, r) :: links => t.mark b :: r.lexemes ++ lexemes links

/-- A tree with links to its right. -/
def grow : Tree F → List t.Link → Tree F
  | u, [] => u
  | u, (b, r) :: links => grow (.binary (t.operator b) u r.tree) links

theorem lexemes_extend (p : Phrase F t.whole) (links : List t.Link) :
    (extend p links).lexemes = p.lexemes ++ lexemes links := by
  induction links generalizing p with
  | nil => exact (List.append_nil _).symm
  | cons link links ih =>
      rw [extend, ih, lexemes_join, lexemes, List.append_assoc]

theorem tree_extend (p : Phrase F t.whole) (links : List t.Link) :
    (extend p links).tree = grow p.tree links := by
  induction links generalizing p with
  | nil => rfl
  | cons link links ih =>
      rw [extend, ih, tree_join, grow]

theorem nesting_extend_le {n : Nat} {p : Phrase F t.whole} {links : List t.Link} :
    (extend p links).nesting ≤ n ↔ p.nesting ≤ n ∧ ∀ link ∈ links, link.2.nesting ≤ n := by
  induction links generalizing p with
  | nil => simp [extend]
  | cons link links ih =>
      rw [extend, ih, nesting_join, Nat.max_le, List.forall_mem_cons, and_assoc]

theorem extend_concat (p : Phrase F t.whole) (links : List t.Link) (b : Bool)
    (r : Phrase F t.operand) : extend p (links ++ [(b, r)]) = t.join b (extend p links) r := by
  induction links generalizing p with
  | nil => rfl
  | cons link links ih => exact ih _

/-- Every phrase of the tier is a first operand with links. -/
theorem exists_extend :
    ∀ p : Phrase F t.whole, ∃ first links, extend (t.single first) links = p := by
  refine t.induct ?_ ?_
  · intro p
    exact ⟨p, [], rfl⟩
  · rintro b l r ⟨first, links, rfl⟩
    exact ⟨first, links ++ [(b, r)], extend_concat _ _ _ _⟩

/-- Links stop the operand before them. -/
theorem stops_lexemes {ls : List (Lexeme F)} (links : List t.Link) (h : t.whole.Stops ls) :
    t.operand.Stops (lexemes links ++ ls) := by
  cases links with
  | nil => exact t.stops_operand h
  | cons link links => exact t.continues_mark link.1

end Tier

end ScalarSolve.Formula
