import ScalarSolve.Formula.Parser
import Mathlib.Logic.Basic

/-!
# What the rules give

A reading carries the bound that makes the rules end.  Here the bound is left behind: a rule *gives*
a tree and the tokens after it, and for every rule there is an equation that says when it does.
-/

namespace ScalarSolve.Formula

variable {F : Type}

namespace Reading

/-- The outcome of a rule is a tree with some tokens left after it. -/
def Gives {n : Nat} (outcome : Except (SyntaxError F) (Reading F n)) (t : Tree F)
    (rest : List (Token F)) : Prop :=
  ∃ r, outcome = .ok r ∧ r.tree = t ∧ r.rest = rest

variable {n m : Nat} {outcome : Except (SyntaxError F) (Reading F n)} {t : Tree F}
  {rest : List (Token F)}

@[simp] theorem gives_ok {r : Reading F n} :
    Gives (.ok r) t rest ↔ r.tree = t ∧ r.rest = rest := by
  simp [Gives]

@[simp] theorem not_gives_error {e : SyntaxError F} :
    ¬ Gives (.error e : Except (SyntaxError F) (Reading F n)) t rest := by
  simp [Gives]

/-- What follows a rule that has succeeded continues from its tree and the tokens it left. -/
theorem exists_gives_ok {r : Reading F n} {P : Tree F → List (Token F) → Prop} :
    (∃ u mid, Gives (.ok r) u mid ∧ P u mid) ↔ P r.tree r.rest := by
  constructor
  · rintro ⟨_, _, ⟨_, ⟨rfl⟩, rfl, rfl⟩, h⟩
    exact h
  · intro h
    exact ⟨_, _, ⟨r, rfl, rfl, rfl⟩, h⟩

@[simp] theorem gives_widen {h : n ≤ m} :
    Gives (outcome.map (·.widen h)) t rest ↔ Gives outcome t rest := by
  cases outcome with
  | error e => simp [Except.map]
  | ok r => simp [Except.map, widen]

@[simp] theorem gives_map {f : Tree F → Tree F} {h : n ≤ m} :
    Gives (outcome.map fun r ↦ (r.map f).widen h) t rest ↔
      ∃ u, Gives outcome u rest ∧ f u = t := by
  cases outcome with
  | error e => simp [Except.map]
  | ok r =>
      constructor
      · rintro ⟨_, ⟨rfl⟩, rfl, rfl⟩
        exact ⟨_, ⟨r, rfl, rfl, rfl⟩, rfl⟩
      · rintro ⟨_, ⟨_, ⟨rfl⟩, rfl, rfl⟩, rfl⟩
        exact ⟨_, rfl, rfl, rfl⟩

theorem Gives.length_lt (h : Gives outcome t rest) : rest.length < n := by
  obtain ⟨r, -, -, rfl⟩ := h
  exact r.within

end Reading

namespace Rules

open Reading

variable {t : Tree F} {ts rest : List (Token F)} {tok : Token F}

/-! ## Chains -/

section

variable {operator? : Lexeme F → Option Operator} {operand : Rule F} {left : Tree F}

theorem gives_chain_nil :
    Gives (chain operator? operand left []) t rest ↔ left = t ∧ [] = rest := by
  rw [chain, gives_ok]

theorem gives_chain_of_none (h : operator? tok.lexeme = none) :
    Gives (chain operator? operand left (tok :: ts)) t rest ↔ left = t ∧ tok :: ts = rest := by
  rw [chain]
  split
  · rw [gives_ok]
  · next op found => cases h.symm.trans found

theorem gives_chain_of_some {op : Operator} (h : operator? tok.lexeme = some op) :
    Gives (chain operator? operand left (tok :: ts)) t rest ↔
      ∃ right mid, Gives (operand ts) right mid ∧
        Gives (chain operator? operand (.binary op left right) mid) t rest := by
  rw [chain]
  split
  · next found => cases h.symm.trans found
  · next op' found =>
      cases h.symm.trans found
      split
      · next e failed => simp [failed]
      · next r succeeded => rw [gives_widen, succeeded, exists_gives_ok]

theorem gives_chained :
    Gives (chained operator? operand ts) t rest ↔
      ∃ first mid, Gives (operand ts) first mid ∧
        Gives (chain operator? operand first mid) t rest := by
  unfold chained
  split
  · next e failed => simp [failed]
  · next r succeeded => rw [gives_widen, succeeded, exists_gives_ok]

end

/-! ## Nestings -/

section

variable {rules : Rules F} {position : Nat}

theorem not_gives_enclosed : ¬ Gives (enclosed none position ts) t rest := not_gives_error

theorem gives_enclosed :
    Gives (enclosed (some rules) position ts) t rest ↔
      ∃ close, close.lexeme = .closing ∧ Gives (rules.sum ts) t (close :: rest) := by
  change Gives (Except.bind (rules.sum ts) _) t rest ↔ _
  cases rules.sum ts with
  | error e => simp [Except.bind]
  | ok body =>
      simp only [Except.bind]
      split
      · next empty => simp [empty]
      · next close after behind =>
          split
          · next closes =>
              constructor
              · rintro ⟨_, ⟨rfl⟩, rfl, rfl⟩
                exact ⟨close, closes, body, rfl, rfl, behind⟩
              · rintro ⟨close', _, _, ⟨rfl⟩, rfl, behind'⟩
                obtain ⟨-, rfl⟩ := List.cons.inj (behind.symm.trans behind')
                exact ⟨_, rfl, rfl, rfl⟩
          · next other =>
              constructor
              · exact fun h ↦ (not_gives_error h).elim
              · rintro ⟨close', closes, _, ⟨rfl⟩, rfl, behind'⟩
                obtain ⟨rfl, -⟩ := List.cons.inj (behind.symm.trans behind')
                exact (other closes).elim

end

/-! ## Atoms -/

section

variable [Arith F] {inner : Option (Rules F)} {position stop : Nat} {name : String}

theorem gives_named_call {f : Elementary} (h : Elementary.ofName? name = some f) :
    Gives (named inner position name ts) t rest ↔
      ∃ opening ts', ts = opening :: ts' ∧ opening.lexeme = .opening ∧
        ∃ u, Gives (enclosed inner opening.start ts') u rest ∧ .call f u = t := by
  unfold named
  rw [h]
  split
  · next f' found =>
      cases found
      split
      · next start stop ts' =>
          rw [gives_map]
          constructor
          · exact fun h ↦ ⟨_, _, rfl, rfl, h⟩
          · rintro ⟨_, _, ⟨rfl, rfl⟩, -, h⟩
            exact h
      · next other =>
          constructor
          · exact fun h ↦ (not_gives_error h).elim
          · rintro ⟨⟨_, start, stop⟩, ts', rfl, rfl, -⟩
            exact (other start stop ts' rfl).elim
  · next none => cases none

theorem gives_named_leaf (h : Elementary.ofName? name = none) :
    Gives (named inner position name ts) t rest ↔ Tree.ofName? name = some t ∧ ts = rest := by
  unfold named
  rw [h]
  split
  · next f found => cases found
  · cases Tree.ofName? (F := F) name with
    | none => simp
    | some leaf => simp

theorem not_gives_atom_nil : ¬ Gives (atom stop inner []) t rest := not_gives_error

theorem gives_atom :
    Gives (atom stop inner (tok :: ts)) t rest ↔
      match tok.lexeme with
      | .number value => .number value = t ∧ ts = rest
      | .name name => Gives (named inner tok.start name ts) t rest
      | .opening => Gives (enclosed inner tok.start ts) t rest
      | _ => False := by
  obtain ⟨lexeme, start, stop⟩ := tok
  cases lexeme with
  | number value => exact gives_ok
  | name name => exact Iff.rfl
  | opening => exact gives_widen
  | plus | minus | star | slash | caret | closing => exact iff_of_false not_gives_error id

end

/-! ## Signs and powers -/

section

variable [Arith F] {inner : Option (Rules F)} {rules : Rules F} {stop : Nat}

theorem not_gives_signedAtom_nil : ¬ Gives (signedAtom stop inner []) t rest := not_gives_error

theorem gives_signedAtom_of_none (h : sign? tok.lexeme = none) :
    Gives (signedAtom stop inner (tok :: ts)) t rest ↔
      Gives (atom stop inner (tok :: ts)) t rest := by
  simp only [signedAtom, h]

theorem not_gives_signedAtom {apply : Tree F → Tree F} (h : sign? tok.lexeme = some apply) :
    ¬ Gives (signedAtom stop none (tok :: ts)) t rest := by
  simp only [signedAtom, h]
  exact not_gives_error

theorem gives_signedAtom_of_some {apply : Tree F → Tree F} (h : sign? tok.lexeme = some apply) :
    Gives (signedAtom stop (some rules) (tok :: ts)) t rest ↔
      ∃ u, Gives (rules.signed ts) u rest ∧ apply u = t := by
  simp only [signedAtom, h]
  exact gives_map

/-- A base gives a power by itself, unless there is a caret behind it. -/
theorem gives_raised :
    Gives (raised stop inner ts) t rest ↔
      ∃ base mid, Gives (signedAtom stop inner ts) base mid ∧
        match mid with
        | ⟨.caret, _, _⟩ :: ts' => ∃ rules, inner = some rules ∧
            ∃ exponent, Gives (rules.power ts') exponent rest ∧ .binary .pow base exponent = t
        | _ => base = t ∧ mid = rest := by
  unfold raised
  cases signedAtom stop inner ts with
  | error e => simp
  | ok r =>
      rw [exists_gives_ok]
      obtain ⟨base, mid, within⟩ := r
      dsimp only
      split
      · next start stop' ts' =>
          cases inner with
          | none => simp [enter]
          | some rules =>
              simp only [enter, gives_map, Option.some.injEq, exists_eq_left']
      · next plain =>
          split
          · next start stop' ts' => exact (plain _ _ _ rfl).elim
          · exact gives_ok

end

end Rules

end ScalarSolve.Formula
