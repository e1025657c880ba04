import ScalarSolve.Proofs.Formula.Unambiguity
import Mathlib.Data.List.Induction

/-!
# Beginnings of formulas

Lexemes are *viable* when some formula begins with them.  Whether they are shows from left to right,
and all that has to be kept in mind is how many parentheses are open and what has to come next: an
operand, an operator, or the parenthesis behind the name of a function.  Such a *stage* allows a
lexeme if and only if the lexemes before it can be completed to a formula with it.
-/

namespace ScalarSolve.Formula

variable {F : Type} [Arith F]

/-! ## Stages -/

/-- What has to come next, and how many parentheses are open. -/
inductive Stage where
  | operand (depth : Nat)
  /-- The parenthesis that a function needs. -/
  | argument (depth : Nat)
  /-- An operator or a closing parenthesis, or else the formula ends. -/
  | operator (depth : Nat)
deriving DecidableEq, Repr

namespace Stage

/-- The stage behind a lexeme, if the lexeme is allowed. -/
def after : Stage → Lexeme F → Option Stage
  | operand d, .number _ => some (operator d)
  | operand d, .name name =>
    if (Elementary.ofName? name).isSome then some (argument d)
    else if (Tree.ofName? (F := F) name).isSome then some (operator d)
    else none
  | operand d, .plus | operand d, .minus => some (operand d)
  | operand d, .opening | argument d, .opening => some (operand (d + 1))
  | operator d, .plus | operator d, .minus | operator d, .star | operator d, .slash
  | operator d, .caret => some (operand d)
  | operator (d + 1), .closing => some (operator d)
  | _, _ => none

/-- The stage behind lexemes. -/
def behind (s : Stage) (ls : List (Lexeme F)) : Option Stage := ls.foldlM after s

variable {s : Stage} {d : Nat}

theorem behind_cons (l : Lexeme F) (ls : List (Lexeme F)) :
    s.behind (l :: ls) = (s.after l).bind (·.behind ls) := rfl

theorem behind_append (ls ls' : List (Lexeme F)) :
    s.behind (ls ++ ls') = (s.behind ls).bind (·.behind ls') :=
  List.foldlM_append

theorem behind_concat (ls : List (Lexeme F)) (l : Lexeme F) :
    s.behind (ls ++ [l]) = (s.behind ls).bind (·.after l) := by
  rw [behind_append]
  congr 1
  funext s'
  exact Option.bind_fun_some _

theorem after_function {name : String} {f : Elementary} (h : Elementary.ofName? name = some f) :
    (operand d).after (.name name : Lexeme F) = some (argument d) := by
  simp [after, h]

theorem after_leaf {name : String} {leaf : Tree F} (h : Tree.ofName? name = some leaf) :
    (operand d).after (.name name : Lexeme F) = some (operator d) := by
  simp [after, h, Elementary.ofName?_eq_none h]

theorem after_unknown {name : String} (noFunction : Elementary.ofName? name = none)
    (noLeaf : Tree.ofName? (F := F) name = none) :
    (operand d).after (.name name : Lexeme F) = none := by
  simp [after, noFunction, noLeaf]

end Stage

/-- A phrase takes the place of an operand. -/
theorem Phrase.behind_lexemes {c : Category} (p : Phrase F c) :
    ∀ d, (Stage.operand d).behind p.lexemes = some (.operator d) := by
  induction p with
  | product p ih | power p ih | signed p ih | atom p ih => exact ih
  | add l r ihl ihr | sub l r ihl ihr | mul l r ihl ihr | div l r ihl ihr | pow l r ihl ihr =>
      intro d
      rw [lexemes, Stage.behind_append, ihl]
      exact ihr d
  | plus p ih | minus p ih => exact ih
  | number value => exact fun d ↦ rfl
  | leaf name tree named =>
      intro d
      rw [lexemes, Stage.behind_cons, Stage.after_leaf named]
      rfl
  | call name f named argument ih =>
      intro d
      rw [lexemes, List.cons_append, Stage.behind_cons, Stage.after_function named,
        Option.bind_some, List.cons_append, Stage.behind_cons, Stage.after, Option.bind_some,
        Stage.behind_append, ih]
      rfl
  | group p ih =>
      intro d
      rw [lexemes, List.cons_append, Stage.behind_cons, Stage.after, Option.bind_some,
        Stage.behind_append, ih]
      rfl

/-! ## Longer phrases -/

/-- Every phrase of a category stays one with these lexemes behind it. -/
def Category.Takes (c : Category) (ls : List (Lexeme F)) : Prop :=
  ∀ p : Phrase F c, ∃ q : Phrase F c, q.lexemes = p.lexemes ++ ls

namespace Tier

variable {t : Tier F}

/-- What makes the last operand longer makes the whole longer. -/
theorem takes_of_operand {ls : List (Lexeme F)} (h : t.operand.Takes ls) : t.whole.Takes ls := by
  refine t.induct ?_ ?_
  · intro p
    obtain ⟨q, lexemes⟩ := h p
    exact ⟨t.single q, by rw [t.lexemes_single, t.lexemes_single, lexemes]⟩
  · intro b l r _
    obtain ⟨q, lexemes⟩ := h r
    refine ⟨t.join b l q, ?_⟩
    rw [t.lexemes_join, t.lexemes_join, lexemes, List.append_assoc, List.cons_append]

theorem takes_link (b : Bool) (r : Phrase F t.operand) : t.whole.Takes (t.mark b :: r.lexemes) :=
  fun p ↦ ⟨t.join b p r, t.lexemes_join b p r⟩

end Tier

/-- The last exponent of a power may have one more. -/
theorem Phrase.power_takes (r : Phrase F .power) :
    ∀ p : Phrase F .power, ∃ q : Phrase F .power, q.lexemes = p.lexemes ++ .caret :: r.lexemes
  | .signed p => ⟨.pow p r, rfl⟩
  | .pow base exponent => by
      obtain ⟨q, eq⟩ := power_takes r exponent
      refine ⟨.pow base q, ?_⟩
      rw [lexemes, lexemes, eq, List.append_assoc, List.cons_append]
termination_by p => sizeOf p

/-- Behind a sum, an operator takes an operand. -/
theorem Category.sum_takes {l : Lexeme F} {d : Nat}
    (h : (Stage.operator d).after l = some (.operand d)) (p : Phrase F .signed) :
    Category.sum.Takes (l :: p.lexemes) := by
  have product {ls : List (Lexeme F)} (h : Category.power.Takes ls) : Category.product.Takes ls :=
    Tier.takes_of_operand (t := Tier.products) h
  have sum {ls : List (Lexeme F)} (h : Category.product.Takes ls) : Category.sum.Takes ls :=
    Tier.takes_of_operand (t := Tier.sums) h
  cases l with
  | plus => exact Tier.takes_link (t := Tier.sums) false (.power (.signed p))
  | minus => exact Tier.takes_link (t := Tier.sums) true (.power (.signed p))
  | star => exact sum (Tier.takes_link (t := Tier.products) false (.signed p))
  | slash => exact sum (Tier.takes_link (t := Tier.products) true (.signed p))
  | caret => exact sum (product (Phrase.power_takes (.signed p)))
  | number | name | opening => cases h
  | closing => cases d <;> cases h

/-! ## Viable lexemes -/

/-- Some formula begins with the lexemes. -/
def Viable (ls : List (Lexeme F)) : Prop := ∃ more, ∃ p : Phrase F .sum, p.lexemes = ls ++ more

theorem Viable.of_append {ls ls' : List (Lexeme F)} (h : Viable (ls ++ ls')) : Viable ls := by
  obtain ⟨more, p, eq⟩ := h
  exact ⟨ls' ++ more, p, by rw [eq, List.append_assoc]⟩

/-- Lexemes that end in a sum inside so many open parentheses; with each of these closed behind any
sum in its place, they do so inside one fewer. -/
def EndsInSum : Nat → List (Lexeme F) → Prop
  | 0, ls => ∃ p : Phrase F .sum, p.lexemes = ls
  | d + 1, ls => ∃ front, ∃ p : Phrase F .sum, ls = front ++ .opening :: p.lexemes ∧
      ∀ q : Phrase F .sum, EndsInSum d (front ++ .opening :: (q.lexemes ++ [.closing]))

theorem EndsInSum.append {d : Nat} {ls ls' : List (Lexeme F)} (h : EndsInSum d ls)
    (takes : Category.sum.Takes ls') : EndsInSum d (ls ++ ls') := by
  cases d with
  | zero =>
      obtain ⟨p, rfl⟩ := h
      exact takes p
  | succ d =>
      obtain ⟨front, p, rfl, closes⟩ := h
      obtain ⟨q, eq⟩ := takes p
      exact ⟨front, q, by rw [eq, List.append_assoc, List.cons_append], closes⟩

theorem EndsInSum.close {d : Nat} {ls : List (Lexeme F)} (h : EndsInSum (d + 1) ls) :
    EndsInSum d (ls ++ [.closing]) := by
  obtain ⟨front, p, rfl, closes⟩ := h
  rw [List.append_assoc, List.cons_append]
  exact closes p

theorem EndsInSum.viable {d : Nat} {ls : List (Lexeme F)} (h : EndsInSum d ls) : Viable ls := by
  induction d generalizing ls with
  | zero =>
      obtain ⟨p, rfl⟩ := h
      exact ⟨[], p, (List.append_nil _).symm⟩
  | succ d ih => exact (ih h.close).of_append

/-- The lexemes lack nothing but what the stage says has to come next. -/
def Stage.Lacks : Stage → List (Lexeme F) → Prop
  | operand d, ls => ∀ p : Phrase F .signed, EndsInSum d (ls ++ p.lexemes)
  | argument d, ls => ∀ p : Phrase F .sum, EndsInSum d (ls ++ .opening :: (p.lexemes ++ [.closing]))
  | operator d, ls => EndsInSum d ls

namespace Stage

variable {s s' : Stage} {ls : List (Lexeme F)} {l : Lexeme F}

theorem Lacks.name {d : Nat} {name : String} (h : (operand d).Lacks ls)
    (allowed : (operand d).after (.name name : Lexeme F) = some s') :
    s'.Lacks (ls ++ [.name name]) := by
  cases function : Elementary.ofName? name with
  | some f =>
      rw [after_function function] at allowed
      cases allowed
      intro p
      rw [List.append_assoc]
      exact h (.atom (.call name f function p))
  | none =>
      cases leaf : Tree.ofName? (F := F) name with
      | some tree =>
          rw [after_leaf leaf] at allowed
          cases allowed
          exact h (.atom (.leaf name tree leaf))
      | none =>
          rw [after_unknown function leaf] at allowed
          cases allowed

/-- An allowed lexeme leads from stage to stage. -/
theorem Lacks.after (h : s.Lacks ls) (allowed : s.after l = some s') : s'.Lacks (ls ++ [l]) := by
  cases s with
  | operand d =>
      cases l with
      | number value =>
          cases allowed
          exact h (.atom (.number value))
      | name name => exact h.name allowed
      | plus =>
          cases allowed
          intro p
          rw [List.append_assoc]
          exact h (.plus p)
      | minus =>
          cases allowed
          intro p
          rw [List.append_assoc]
          exact h (.minus p)
      | opening =>
          cases allowed
          intro p
          rw [List.append_assoc]
          exact ⟨ls, .product (.power (.signed p)), rfl, fun q ↦ h (.atom (.group q))⟩
      | star | slash | caret | closing => cases allowed
  | argument d =>
      cases l with
      | opening =>
          cases allowed
          intro p
          rw [List.append_assoc]
          exact ⟨ls, .product (.power (.signed p)), rfl, h⟩
      | number | name | plus | minus | star | slash | caret | closing => cases allowed
  | operator d =>
      cases l with
      | plus | minus | star | slash | caret =>
          cases allowed
          intro p
          rw [List.append_assoc]
          exact EndsInSum.append h (Category.sum_takes (d := d) rfl p)
      | closing =>
          cases d with
          | zero => cases allowed
          | succ d =>
              cases allowed
              exact EndsInSum.close h
      | number | name | opening => cases allowed

theorem lacks_of_behind (h : (operand 0).behind ls = some s) : s.Lacks ls := by
  induction ls using List.reverseRecOn generalizing s with
  | nil =>
      cases h
      exact fun p ↦ ⟨.product (.power (.signed p)), rfl⟩
  | append_singleton ls l ih =>
      rw [behind_concat, Option.bind_eq_some_iff] at h
      obtain ⟨s', before, allowed⟩ := h
      exact (ih before).after allowed

/-- What is lacking can be supplied by the variable. -/
theorem Lacks.viable (h : s.Lacks ls) : Viable ls := by
  cases s with
  | operand d => exact (h (.atom (.leaf "x" .var rfl))).viable.of_append
  | argument d =>
      exact (h (.product (.power (.signed (.atom (.leaf "x" .var rfl)))))).viable.of_append
  | operator d => exact EndsInSum.viable h

end Stage

/-- Lexemes are viable if and only if there is a stage behind them. -/
theorem viable_iff {ls : List (Lexeme F)} :
    Viable ls ↔ ∃ s, (Stage.operand 0).behind ls = some s := by
  constructor
  · rintro ⟨more, p, eq⟩
    have whole := p.behind_lexemes 0
    rw [eq, Stage.behind_append, Option.bind_eq_some_iff] at whole
    obtain ⟨s, front, -⟩ := whole
    exact ⟨s, front⟩
  · rintro ⟨s, front⟩
    exact (Stage.lacks_of_behind front).viable

theorem not_viable_concat {ls : List (Lexeme F)} {l : Lexeme F} {s : Stage}
    (front : (Stage.operand 0).behind ls = some s) (refuses : s.after l = none) :
    ¬Viable (ls ++ [l]) := by
  rw [viable_iff, Stage.behind_concat, front, Option.bind_some, refuses]
  simp

end ScalarSolve.Formula
