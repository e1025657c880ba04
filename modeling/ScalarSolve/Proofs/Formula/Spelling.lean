import ScalarSolve.Proofs.Formula.Literal

/-!
# Spelling

How lexemes are written, apart from how they are found.  A number is a literal; a name is a letter
or an underscore with more of these and digits behind it; everything else has one spelling, but the
caret two.

What the scanner takes at the front of a text is the longest spelling there.  Where it takes
nothing, there is none, or there is a literal that goes on with the mark of an exponent and no
exponent.
-/

namespace ScalarSolve.Formula

/-! ## Spellings -/

/-- The texts that are written for a lexeme. -/
inductive Spells {F : Type} [Arith F] : List Char → Lexeme F → Prop
  | number (n : Literal) : Spells n.text (.number n.value)
  | name {c : Char} {cs : List Char} (starts : c.isAlpha ∨ c = '_')
      (continues : ∀ d ∈ cs, d.isAlphanum ∨ d = '_') :
      Spells (c :: cs) (.name (String.ofList (c :: cs)))
  | plus : Spells ['+'] .plus
  | minus : Spells ['-'] .minus
  | star : Spells ['*'] .star
  | slash : Spells ['/'] .slash
  | caret : Spells ['^'] .caret
  | stars : Spells ['*', '*'] .caret
  | opening : Spells ['('] .opening
  | closing : Spells [')'] .closing

/-- Of the spellings of lexemes at the front of a text, the longest one. -/
structure Longest {F : Type} [Arith F] (span text : List Char) (l : Lexeme F) : Prop where
  spells : Spells span l
  front : span <+: text
  longest : ∀ longer (l' : Lexeme F), longer <+: text → Spells longer l' →
    longer.length ≤ span.length

/-- What stands at the front of a text in place of a blank or a lexeme, and at which character of it
the fault lies. -/
inductive Offence {F : Type} [Arith F] : List Char → Nat → SyntaxCause F → Prop
  /-- A character that no lexeme starts with. -/
  | character {c : Char} {rest : List Char} (space : Scan.isSpace c = false) (point : c ≠ '.')
      (outside : ∀ cs (l : Lexeme F), ¬Spells (c :: cs) l) :
      Offence (c :: rest) 0 (.unexpectedCharacter c)
  /-- A point without digits. -/
  | point {rest : List Char} (none : ∀ c ∈ rest.head?, c.isDigit = false) :
      Offence ('.' :: rest) 0 .missingDigits
  /-- A literal with the mark of an exponent behind it and no exponent. -/
  | mark {n : Literal} {c : Char} {rest : List Char} (plain : n.power? = none)
      (mark : c = 'e' ∨ c = 'E') (none : ∀ p : Literal.Power, ¬p.text <+: c :: rest) :
      Offence (n.text ++ c :: rest) n.text.length .malformedExponent

namespace Scan

variable {F : Type} [Arith F]

/-! ## Lexemes -/

/-- No character starts both a name and a number. -/
theorem startsNumber_eq_false {c : Char} (h : startsName c) : startsNumber c = false := by
  rw [← Bool.not_eq_true]
  intro number
  simp only [startsName, Char.isAlpha, Char.isUpper, Char.isLower, Bool.or_eq_true,
    Bool.and_eq_true, decide_eq_true_eq, beq_iff_eq, UInt32.le_iff_toNat_le] at h
  simp only [startsNumber, Char.isDigit, Bool.or_eq_true, Bool.and_eq_true, decide_eq_true_eq,
    beq_iff_eq, UInt32.le_iff_toNat_le] at number
  rcases number with number | rfl
  · rcases h with (h | h) | rfl
    · simp at h number
      omega
    · simp at h number
      omega
    · simp at number
  · simp at h

/-- A literal starts with a digit or a point. -/
theorem startsNumber_of_text {n : Literal} {c : Char} {cs : List Char} (h : n.text = c :: cs) :
    startsNumber c := by
  cases whole : n.whole with
  | nil =>
      rcases n.decimal_cases with ⟨some_digit, -⟩ | ⟨places, -, decimal⟩
      · exact absurd whole some_digit
      · rw [Literal.text, decimal, whole, List.nil_append, List.cons_append] at h
        obtain ⟨rfl, -⟩ := List.cons.inj h
        rfl
  | cons d ds =>
      rw [Literal.text, Literal.decimal, whole, List.cons_append, List.cons_append] at h
      obtain ⟨rfl, -⟩ := List.cons.inj h
      have digit := n.isDigit_whole d (whole ▸ List.mem_cons_self ..)
      rw [startsNumber, digit, Bool.true_or]

/-- The first character of a spelling decides what kind of lexeme is spelled. -/
theorem spells_cons {c : Char} {cs : List Char} {l : Lexeme F} (h : Spells (c :: cs) l) :
    (startsNumber c ∧ ∃ n : Literal, n.text = c :: cs) ∨
      (startsNumber c = false ∧ startsName c ∧ ∀ d ∈ cs, continuesName d) ∨
      startsNumber c = false ∧ startsName c = false ∧ c ∈ ['+', '-', '*', '/', '^', '(', ')'] ∧
        (cs = [] ∨ c = '*' ∧ cs = ['*']) := by
  generalize spelled : c :: cs = text at h
  cases h with
  | number n => exact .inl ⟨startsNumber_of_text spelled.symm, n, rfl⟩
  | name starts continues =>
      obtain ⟨rfl, rfl⟩ := List.cons.inj spelled
      have name : startsName c := by simpa [startsName] using starts
      exact .inr (.inl ⟨startsNumber_eq_false name, name,
        fun d mem ↦ by simpa [continuesName] using continues d mem⟩)
  | plus | minus | star | slash | caret | stars | opening | closing =>
      obtain ⟨rfl, rfl⟩ := List.cons.inj spelled
      exact .inr (.inr ⟨rfl, rfl, by decide, by decide⟩)

/-- What spells a lexeme is read as this lexeme, all of it. -/
theorem lexeme_of_spells {c : Char} {cs : List Char} {l : Lexeme F} (h : Spells (c :: cs) l) :
    lexeme c cs = .ok (l, cs.length) := by
  generalize spelled : c :: cs = text at h
  cases h with
  | number n =>
      unfold lexeme
      rw [if_pos (startsNumber_of_text spelled.symm), spelled, number_text, ← spelled]
      rfl
  | name starts continues =>
      obtain ⟨rfl, rfl⟩ := List.cons.inj spelled
      have name : startsName c := by simpa [startsName] using starts
      have all : cs.takeWhile continuesName = cs :=
        List.takeWhile_eq_self_iff.mpr fun d mem ↦ by simpa [continuesName] using continues d mem
      unfold lexeme
      rw [if_neg (ne_true_of_eq_false (startsNumber_eq_false name)), if_pos name, all]
  | plus | minus | star | slash | caret | stars | opening | closing =>
      obtain ⟨rfl, rfl⟩ := List.cons.inj spelled
      rfl

theorem mem_of_isSpace {c : Char} (h : isSpace c) : c ∈ [' ', '\t', '\n', '\x0c', '\r'] := by
  simpa [isSpace, or_assoc] using h

/-- Blanks are not part of spellings. -/
theorem isSpace_of_spells {c : Char} {cs : List Char} {l : Lexeme F} (h : Spells (c :: cs) l) :
    isSpace c = false := by
  rw [← Bool.not_eq_true]
  intro space
  have blank : Text.isBlank c := by
    have mem := mem_of_isSpace space
    simp only [List.mem_cons, List.not_mem_nil, or_false] at mem
    rcases mem with rfl | rfl | rfl | rfl | rfl <;> rfl
  obtain ⟨e, refused⟩ := lexeme_of_isBlank (F := F) blank cs
  cases (lexeme_of_spells h).symm.trans refused

theorem ne_nil_of_spells {cs : List Char} {l : Lexeme F} (h : Spells cs l) : cs ≠ [] := by
  cases h with
  | number n => exact n.text_ne_nil
  | _ => exact List.cons_ne_nil _ _

theorem literal_of_spells {cs : List Char} {v : F} (h : Spells cs (.number v)) :
    ∃ n : Literal, n.text = cs ∧ n.value = v := by
  generalize number : (Lexeme.number v : Lexeme F) = l at h
  cases h with
  | number n =>
      cases number
      exact ⟨n, rfl, rfl⟩
  | _ => cases number

/-- A text that spells a lexeme is cut into this lexeme alone. -/
theorem lexemes_of_spells {cs : List Char} {l : Lexeme F} (h : Spells cs l) :
    lexemes F cs = some [l] := by
  obtain ⟨c, cs, rfl⟩ := List.exists_cons_of_ne_nil (ne_nil_of_spells h)
  rw [lexemes_of_lexeme (isSpace_of_spells h) (lexeme_of_spells h), List.drop_length, lexemes_nil]
  rfl

/-- What stands in front of a text and is longest there, if whatever is spelled there with the same
first character is no longer. -/
theorem longest_of_cons {c : Char} {cs rest : List Char} {l : Lexeme F}
    (spells : Spells (c :: cs) l) (front : cs <+: rest)
    (longest : ∀ more (l' : Lexeme F), more <+: rest → Spells (c :: more) l' →
      more.length ≤ cs.length) : Longest (c :: cs) (c :: rest) l where
  spells := spells
  front := List.cons_prefix_cons.mpr ⟨rfl, front⟩
  longest longer l' within spelled := by
    cases longer with
    | nil => exact Nat.zero_le _
    | cons d more =>
        obtain ⟨rfl, within'⟩ := List.cons_prefix_cons.mp within
        exact Nat.succ_le_succ (longest more l' within' spelled)

theorem longest_number {c : Char} {rest : List Char} (starts : startsNumber c) {value : F}
    {size : Nat} (read : number (c :: rest) = .ok (value, size)) :
    Longest (c :: rest.take (size - 1)) (c :: rest) (.number value) := by
  have size_le := number_le read
  obtain ⟨n, text, rfl⟩ := literal_of_number read
  obtain ⟨size, rfl⟩ : ∃ taken, size = taken + 1 :=
    Nat.exists_eq_succ_of_ne_zero fun none ↦ n.text_ne_nil (by rw [text, none]; rfl)
  rw [List.take_succ_cons] at text
  rw [List.length_cons, Nat.add_le_add_iff_right] at size_le
  refine longest_of_cons (text ▸ .number n) (List.take_prefix ..) fun more l' within spelled ↦ ?_
  rw [Nat.add_sub_cancel, List.length_take, Nat.min_eq_left size_le]
  rcases spells_cons spelled with ⟨-, n', text'⟩ | ⟨none, -⟩ | ⟨none, -⟩
  · have front : n'.text <+: c :: rest := by
      rw [text']
      exact List.cons_prefix_cons.mpr ⟨rfl, within⟩
    have := length_le_of_number front read
    rw [text', List.length_cons] at this
    exact Nat.le_of_succ_le_succ this
  all_goals
    rw [none] at starts
    cases starts

theorem longest_name {c : Char} (starts : startsName c) (rest : List Char) :
    Longest (F := F) (c :: rest.takeWhile continuesName) (c :: rest)
      (.name (String.ofList (c :: rest.takeWhile continuesName))) := by
  refine longest_of_cons (.name (by simpa [startsName] using starts) fun d mem ↦ ?_)
    (List.takeWhile_prefix _) fun more l' within spelled ↦ ?_
  · simpa [continuesName] using List.mem_takeWhile_imp mem
  · rcases spells_cons spelled with ⟨number, -⟩ | ⟨-, -, continues⟩ | ⟨-, none, -⟩
    · rw [startsNumber_eq_false starts] at number
      cases number
    · obtain ⟨after, rfl⟩ := within
      rw [List.takeWhile_append_of_pos continues, List.length_append]
      exact Nat.le_add_right ..
    · rw [none] at starts
      cases starts

/-- A symbol stands alone, but for a star in front of another one. -/
theorem longest_symbol {c : Char} {l : Lexeme F} (spells : Spells [c] l)
    (notNumber : startsNumber c = false) (notName : startsName c = false) (rest : List Char)
    (single : c = '*' → rest.head? ≠ some '*') : Longest [c] (c :: rest) l := by
  refine longest_of_cons spells (List.nil_prefix ..) fun more l' within spelled ↦ ?_
  rcases spells_cons spelled with ⟨number, -⟩ | ⟨-, name, -⟩ | ⟨-, -, -, rfl | ⟨star, rfl⟩⟩
  · rw [notNumber] at number
    cases number
  · rw [notName] at name
    cases name
  · exact Nat.le_refl _
  · obtain ⟨after, rfl⟩ := within
    exact absurd rfl (single star)

theorem longest_stars (rest : List Char) :
    Longest (F := F) ['*', '*'] ('*' :: '*' :: rest) .caret := by
  refine longest_of_cons .stars ⟨rest, rfl⟩ fun more l' within spelled ↦ ?_
  rcases spells_cons spelled with ⟨number, -⟩ | ⟨-, name, -⟩ | ⟨-, -, -, rfl | ⟨-, rfl⟩⟩
  · cases number
  · cases name
  · exact Nat.zero_le _
  · exact Nat.le_refl _

/-- What is taken as the lexeme in front is the longest one that is spelled there. -/
theorem longest_of_lexeme {c : Char} {rest : List Char} {found : Lexeme F} {taken : Nat}
    (h : lexeme c rest = .ok (found, taken)) :
    Longest (c :: rest.take taken) (c :: rest) found := by
  unfold lexeme at h
  split at h
  · next starts =>
      cases read : (number (c :: rest) : Except (SyntaxCause F × Nat) (F × Nat)) with
      | error e =>
          rw [read] at h
          cases h
      | ok r =>
          rw [read] at h
          cases h
          exact longest_number starts read
  · next notNumber =>
      rw [Bool.not_eq_true] at notNumber
      split at h
      · next starts =>
          cases h
          rw [← takeWhile_eq_take]
          exact longest_name starts rest
      · next notName =>
          rw [Bool.not_eq_true] at notName
          split at h
          case h_3 =>
            split at h
            · next second =>
                cases h
                cases rest with
                | nil => cases second
                | cons d rest =>
                    obtain rfl : d = '*' := by simpa using second
                    exact longest_stars rest
            · next single =>
                cases h
                exact longest_symbol .star notNumber notName rest fun _ ↦ by simpa using single
          case h_8 => cases h
          all_goals
            cases h
            exact longest_symbol (by constructor) notNumber notName rest
              fun star ↦ absurd star (by decide)

theorem not_isDigit_head {cs : List Char} (none : cs.takeWhile Char.isDigit = []) :
    ∀ c ∈ cs.head?, c.isDigit = false := by
  cases cs with
  | nil => simp
  | cons c cs => simpa [List.takeWhile_cons] using none

/-- Where no lexeme is taken, the text offends. -/
theorem offence_of_lexeme {c : Char} {rest : List Char} {cause : SyntaxCause F} {offset : Nat}
    (space : isSpace c = false) (h : lexeme c rest = .error (cause, offset)) :
    Offence (c :: rest) offset cause := by
  unfold lexeme at h
  split at h
  · next starts =>
      cases read : (number (c :: rest) : Except (SyntaxCause F × Nat) (F × Nat)) with
      | ok r =>
          rw [read] at h
          cases h
      | error e =>
          rw [read] at h
          cases h
          rcases number_eq_error read with ⟨rfl, rfl, whole, places⟩ | ⟨rfl, n, plain, text, none⟩
          · have noDigit := not_isDigit_head whole
            obtain rfl : c = '.' := by simpa [startsNumber, noDigit c rfl] using starts
            exact .point (not_isDigit_head places)
          · obtain ⟨mark, after, split, mark_mem, none⟩ := mark_of_exponent? none
            have length : n.text.length = offset := by
              have within := congrArg List.length split
              rw [List.length_drop, List.length_cons (a := mark)] at within
              rw [text, List.length_take]
              omega
            rw [← List.take_append_drop offset (c :: rest), ← text, split, ← length]
            exact .mark plain mark_mem (split ▸ none)
  · next notNumber =>
      split at h
      · cases h
      · next notName =>
          rw [Bool.not_eq_true] at notNumber notName
          split at h
          case h_3 => split at h <;> cases h
          case h_8 =>
            cases h
            refine .character space (by rintro rfl; cases notNumber) fun cs l spelled ↦ ?_
            rcases spells_cons spelled with ⟨number, -⟩ | ⟨-, name, -⟩ | ⟨-, -, symbol, -⟩
            · rw [notNumber] at number
              cases number
            · rw [notName] at name
              cases name
            · simp at symbol
              tauto
          all_goals cases h

end Scan

end ScalarSolve.Formula
