import ScalarSolve.Formula.Phrase

/-!
# Parentheses

Lexemes are *matched* when every parenthesis among them closes one that was opened there, and none
stays open.  Those of a phrase are.  And where matched lexemes stand between parentheses inside a
phrase, those parentheses belong together: what they enclose is a phrase itself, a part of the
whole.
-/

namespace ScalarSolve.Formula

variable {F : Type}

/-! ## Matched lexemes -/

/-- How many parentheses are open behind a lexeme, if `depth` are open before it. -/
def Lexeme.openAfter (depth : Nat) : Lexeme F → Option Nat
  | opening => some (depth + 1)
  | closing => if depth = 0 then none else some (depth - 1)
  | _ => some depth

/-- How many parentheses are open behind lexemes; nothing if one is closed that was not opened. -/
def openBehind (depth : Nat) (ls : List (Lexeme F)) : Option Nat := ls.foldlM Lexeme.openAfter depth

/-- Every parenthesis has its counterpart. -/
def Matched (ls : List (Lexeme F)) : Prop := openBehind 0 ls = some 0

instance (ls : List (Lexeme F)) : Decidable (Matched ls) :=
  inferInstanceAs (Decidable (openBehind 0 ls = some 0))

theorem openBehind_cons (depth : Nat) (l : Lexeme F) (ls : List (Lexeme F)) :
    openBehind depth (l :: ls) = (l.openAfter depth).bind (openBehind · ls) := rfl

theorem openBehind_append (depth : Nat) (ls ls' : List (Lexeme F)) :
    openBehind depth (ls ++ ls') = (openBehind depth ls).bind (openBehind · ls') :=
  List.foldlM_append

theorem openBehind_opening (depth : Nat) (ls : List (Lexeme F)) :
    openBehind depth (.opening :: ls) = openBehind (depth + 1) ls := rfl

theorem Lexeme.openAfter_add {depth after : Nat} {l : Lexeme F} (h : l.openAfter depth = some after)
    (more : Nat) : l.openAfter (depth + more) = some (after + more) := by
  cases l with
  | opening =>
      cases h
      exact congrArg some (Nat.add_right_comm depth more 1)
  | closing =>
      cases depth with
      | zero => cases h
      | succ depth =>
          cases h
          rw [Nat.add_right_comm]
          rfl
  | number | name | plus | minus | star | slash | caret =>
      cases h
      rfl

/-- Parentheses that are open already stay open. -/
theorem openBehind_add {depth after : Nat} {ls : List (Lexeme F)}
    (h : openBehind depth ls = some after) (more : Nat) :
    openBehind (depth + more) ls = some (after + more) := by
  induction ls generalizing depth with
  | nil =>
      cases h
      rfl
  | cons l ls ih =>
      rw [openBehind_cons, Option.bind_eq_some_iff] at h
      obtain ⟨between, first, rest⟩ := h
      rw [openBehind_cons, Lexeme.openAfter_add first more]
      exact ih rest

/-- Matched lexemes leave open what was open. -/
theorem Matched.openBehind {ls : List (Lexeme F)} (h : Matched ls) (depth : Nat) :
    openBehind depth ls = some depth := by
  have := openBehind_add h depth
  rwa [Nat.zero_add] at this

theorem Matched.append {ls ls' : List (Lexeme F)} (h : Matched ls) (h' : Matched ls') :
    Matched (ls ++ ls') := by
  rw [Matched, openBehind_append, h]
  exact h'

/-- Lexemes between parentheses. -/
theorem Matched.enclosed {ls : List (Lexeme F)} (h : Matched ls) :
    Matched (.opening :: (ls ++ [.closing])) := by
  rw [Matched, openBehind_opening, openBehind_append, h.openBehind]
  rfl

/-- A lexeme that is no parenthesis, in front. -/
theorem Matched.cons {l : Lexeme F} (plain : l.openAfter 0 = some 0) {ls : List (Lexeme F)}
    (h : Matched ls) : Matched (l :: ls) := by
  rw [Matched, openBehind_cons, plain]
  exact h

variable [Arith F] {c : Category}

/-- The parentheses of a phrase are matched. -/
theorem Phrase.matched (p : Phrase F c) : Matched p.lexemes := by
  induction p with
  | product p ih | power p ih | signed p ih | atom p ih => exact ih
  | add l r ihl ihr | sub l r ihl ihr | mul l r ihl ihr | div l r ihl ihr | pow l r ihl ihr =>
      exact ihl.append (ihr.cons rfl)
  | plus p ih | minus p ih => exact ih.cons rfl
  | number | leaf => rfl
  | call name f named argument ih => exact ih.enclosed.cons rfl
  | group p ih => exact ih.enclosed

/-- In `1)*(2` as many parentheses are opened as closed, but the other way around. -/
example : ¬Matched ([.number 1, .closing, .star, .opening, .number 2] : List (Lexeme Nat)) := by
  decide

/-! ## What parentheses enclose -/

/-- Among the lexemes, these stand between an opening and a closing parenthesis. -/
def Encloses (ls inner : List (Lexeme F)) : Prop :=
  ∃ before after, ls = before ++ .opening :: (inner ++ .closing :: after)

section

omit [Arith F]

variable {ls ls' inner : List (Lexeme F)}

theorem Encloses.of_cons {l : Lexeme F} (plain : l ≠ .opening) (h : Encloses (l :: ls) inner) :
    Encloses ls inner := by
  obtain ⟨before, after, split⟩ := h
  cases before with
  | nil => exact absurd (List.cons.inj split).1 plain
  | cons d before => exact ⟨before, after, (List.cons.inj split).2⟩

/-- A parenthesis that closes behind matched lexemes has no counterpart among them. -/
theorem Matched.not_matched_closing (h : Matched ls) (more : List (Lexeme F)) :
    ¬Matched (ls ++ .closing :: more) := by
  rw [Matched, openBehind_append, h]
  rintro ⟨⟩

/-- A parenthesis that nothing behind it closes has no counterpart. -/
theorem not_matched_opening {depth : Nat} (h : openBehind 0 ls = some depth)
    (before : List (Lexeme F)) : ¬Matched (before ++ .opening :: ls) := by
  rw [Matched, openBehind_append]
  cases openBehind 0 before with
  | none => rintro ⟨⟩
  | some front =>
      have behind := openBehind_add h (front + 1)
      rw [Nat.zero_add] at behind
      rw [Option.bind_some, openBehind_opening, behind]
      rintro ⟨⟩

/-- Matched lexemes end before the first parenthesis that closes none of theirs. -/
theorem Matched.eq_of_closing (h : Matched ls) (h' : Matched ls') {more more' : List (Lexeme F)}
    (eq : ls ++ .closing :: more = ls' ++ .closing :: more') : ls = ls' := by
  rcases List.append_eq_append_iff.mp eq with ⟨rest, rfl, behind⟩ | ⟨rest, rfl, behind⟩
  · cases rest with
    | nil => rw [List.append_nil]
    | cons l rest =>
        obtain ⟨rfl, -⟩ := List.cons.inj behind
        exact absurd h' (h.not_matched_closing rest)
  · cases rest with
    | nil => rw [List.append_nil]
    | cons l rest =>
        obtain ⟨rfl, -⟩ := List.cons.inj behind
        exact absurd h (h'.not_matched_closing rest)

/-- No pair of parentheses around matched lexemes lies across the end of matched ones. -/
theorem Encloses.of_append (matched : Matched ls) (inside : Matched inner)
    (h : Encloses (ls ++ ls') inner) : Encloses ls inner ∨ Encloses ls' inner := by
  obtain ⟨before, after, split⟩ := h
  rcases List.append_eq_append_iff.mp split with ⟨rest, rfl, behind⟩ | ⟨rest, rfl, behind⟩
  · exact .inr ⟨rest, after, behind⟩
  · cases rest with
    | nil => exact .inr ⟨[], after, behind.symm⟩
    | cons l rest =>
        obtain ⟨rfl, enclosed⟩ := List.cons.inj behind
        rcases List.append_eq_append_iff.mp enclosed with ⟨tail, rfl, closes⟩ | ⟨tail, rfl, -⟩
        · cases tail with
          | nil =>
              rw [List.append_nil] at matched
              exact absurd matched (not_matched_opening inside before)
          | cons l tail =>
              obtain ⟨rfl, -⟩ := List.cons.inj closes
              exact .inl ⟨before, tail, rfl⟩
        · rw [Matched, openBehind_append, Option.bind_eq_some_iff] at inside
          obtain ⟨depth, front, -⟩ := inside
          exact absurd matched (not_matched_opening front before)

theorem Encloses.of_enclosed (matched : Matched ls) (inside : Matched inner)
    (h : Encloses (.opening :: (ls ++ [.closing])) inner) : inner = ls ∨ Encloses ls inner := by
  obtain ⟨before, after, split⟩ := h
  cases before with
  | nil => exact .inl (inside.eq_of_closing matched (List.cons.inj split).2.symm)
  | cons l before =>
      refine .inr (Or.resolve_right
        (Encloses.of_append matched inside ⟨before, after, (List.cons.inj split).2⟩) ?_)
      rintro ⟨before, after, single⟩
      have length := congrArg List.length single
      simp only [List.length_append, List.length_cons, List.length_nil] at length
      omega

end

/-! ## Parts -/

/-- One tree is a part of another. -/
inductive Tree.Within : Tree F → Tree F → Prop
  | refl (t : Tree F) : Within t t
  | neg {s t : Tree F} (h : Within s t) : Within s (.neg t)
  | left {s l r : Tree F} {op : Operator} (h : Within s l) : Within s (.binary op l r)
  | right {s l r : Tree F} {op : Operator} (h : Within s r) : Within s (.binary op l r)
  | call {s t : Tree F} {f : Elementary} (h : Within s t) : Within s (.call f t)

/-- What parentheses in a phrase enclose, if it is matched, is a sum with fewer nestings, and a part
of the whole. -/
theorem Phrase.exists_enclosed (p : Phrase F c) {inner : List (Lexeme F)} (inside : Matched inner)
    (h : Encloses p.lexemes inner) : ∃ q : Phrase F .sum, q.lexemes = inner ∧
      q.nesting < p.nesting ∧ q.tree.Within p.tree := by
  induction p with
  | product p ih | power p ih | signed p ih | atom p ih => exact ih h
  | add l r ihl ihr | sub l r ihl ihr | mul l r ihl ihr | div l r ihl ihr =>
      rcases h.of_append l.matched inside with h | h
      · obtain ⟨q, lexemes, nesting, within⟩ := ihl h
        exact ⟨q, lexemes, Nat.lt_of_lt_of_le nesting (Nat.le_max_left ..), .left within⟩
      · obtain ⟨q, lexemes, nesting, within⟩ := ihr (h.of_cons (by simp))
        exact ⟨q, lexemes, Nat.lt_of_lt_of_le nesting (Nat.le_max_right ..), .right within⟩
  | pow l r ihl ihr =>
      rcases h.of_append l.matched inside with h | h
      · obtain ⟨q, lexemes, nesting, within⟩ := ihl h
        exact ⟨q, lexemes, Nat.lt_of_lt_of_le nesting (Nat.le_max_left ..), .left within⟩
      · obtain ⟨q, lexemes, nesting, within⟩ := ihr (h.of_cons (by simp))
        exact ⟨q, lexemes, Nat.lt_of_lt_of_le (Nat.lt_succ_of_lt nesting) (Nat.le_max_right ..),
          .right within⟩
  | plus p ih =>
      obtain ⟨q, lexemes, nesting, within⟩ := ih (h.of_cons (by simp))
      exact ⟨q, lexemes, Nat.lt_succ_of_lt nesting, within⟩
  | minus p ih =>
      obtain ⟨q, lexemes, nesting, within⟩ := ih (h.of_cons (by simp))
      exact ⟨q, lexemes, Nat.lt_succ_of_lt nesting, .neg within⟩
  | number value | leaf name leaf named =>
      obtain ⟨before, after, single⟩ := h
      have length := congrArg List.length single
      simp only [Phrase.lexemes, List.length_append, List.length_cons, List.length_nil] at length
      omega
  | call name f named argument ih =>
      rcases (h.of_cons (by simp)).of_enclosed argument.matched inside with rfl | h
      · exact ⟨argument, rfl, Nat.lt_succ_self _, .call (.refl _)⟩
      · obtain ⟨q, lexemes, nesting, within⟩ := ih h
        exact ⟨q, lexemes, Nat.lt_succ_of_lt nesting, .call within⟩
  | group p ih =>
      rcases h.of_enclosed p.matched inside with rfl | h
      · exact ⟨p, rfl, Nat.lt_succ_self _, .refl _⟩
      · obtain ⟨q, lexemes, nesting, within⟩ := ih h
        exact ⟨q, lexemes, Nat.lt_succ_of_lt nesting, within⟩

end ScalarSolve.Formula
