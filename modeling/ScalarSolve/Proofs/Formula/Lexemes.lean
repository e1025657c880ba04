import Mathlib
import ScalarSolve.Proofs.Formula.Recognition
import ScalarSolve.Proofs.Text.Trim

/-!
# Lexemes

What a text is cut into, without the places where the parts stand.  A lexeme ends before the first
character that it cannot go on with.  So a text that is put together where such a character stands
has the lexemes of its parts, one after another, and the blanks at the ends of a text do not count.
-/

namespace ScalarSolve.Formula

namespace Scan

/-! ## Where lexemes end -/

/-- The characters that a lexeme may go on with: those of names and numbers, and a second star. -/
def continuesLexeme (c : Char) : Bool :=
  continuesName c || c == '.' || c == '+' || c == '-' || c == '*'

variable {c d : Char}

theorem continuesLexeme_eq_false :
    continuesLexeme c = false ↔ continuesName c = false ∧ c.isDigit = false ∧ c ≠ '.' ∧ c ≠ '+' ∧
      c ≠ '-' ∧ c ≠ '*' := by
  simp only [continuesLexeme, continuesName, Char.isAlphanum, Bool.or_eq_false_iff,
    beq_eq_false_iff_ne]
  tauto

theorem visible_of_continuesLexeme (h : continuesLexeme c) : 32 < c.toNat ∧ c.toNat < 127 := by
  simp only [continuesLexeme, continuesName, Char.isAlphanum, Char.isAlpha, Char.isUpper,
    Char.isLower, Char.isDigit, Bool.or_eq_true, Bool.and_eq_true, decide_eq_true_eq, beq_iff_eq,
    UInt32.le_iff_toNat_le, or_assoc] at h
  rcases h with h | h | h | rfl | rfl | rfl | rfl | rfl
  · exact ⟨Nat.lt_of_lt_of_le (by decide) h.1, Nat.lt_of_le_of_lt h.2 (by decide)⟩
  · exact ⟨Nat.lt_of_lt_of_le (by decide) h.1, Nat.lt_of_le_of_lt h.2 (by decide)⟩
  · exact ⟨Nat.lt_of_lt_of_le (by decide) h.1, Nat.lt_of_le_of_lt h.2 (by decide)⟩
  all_goals decide

theorem continuesLexeme_of_isBlank (blank : Text.isBlank c) : continuesLexeme c = false := by
  rw [← Bool.not_eq_true]
  intro continues
  obtain ⟨low, high⟩ := visible_of_continuesLexeme continues
  simp [Text.isBlank, Text.blankRanges] at blank
  omega

/-- Taking characters stops before the first unfit one, whatever comes behind it. -/
theorem takeWhile_append_of_not {p : Char → Bool} (stop : p d = false) (cs more : List Char) :
    (cs ++ d :: more).takeWhile p = cs.takeWhile p := by
  induction cs with
  | nil => simp [stop]
  | cons c cs ih => simp [List.takeWhile_cons, ih]

theorem length_takeWhile_le (p : Char → Bool) (cs : List Char) :
    (cs.takeWhile p).length ≤ cs.length :=
  (List.takeWhile_prefix p).length_le

variable {F : Type} [Arith F]

theorem fraction_le (cs : List Char) : (fraction cs).2 ≤ cs.length := by
  fun_cases fraction cs with
  | case1 rest => exact Nat.succ_le_succ (length_takeWhile_le _ rest)
  | case2 => exact Nat.zero_le _

/-- The digits on both sides of a decimal point are part of the text. -/
theorem decimal_le (cs : List Char) :
    (cs.takeWhile Char.isDigit).length +
      (fraction (cs.drop (cs.takeWhile Char.isDigit).length)).2 ≤ cs.length := by
  have places := fraction_le (cs.drop (cs.takeWhile Char.isDigit).length)
  rw [List.length_drop] at places
  exact Nat.add_le_of_le_sub' (length_takeWhile_le Char.isDigit cs) places

theorem exponentSign_le (cs : List Char) : (exponentSign cs).2 ≤ cs.length := by
  fun_cases exponentSign cs with
  | case1 | case2 => exact Nat.le_add_left _ _
  | case3 => exact Nat.zero_le _

theorem exponent?_le {cs : List Char} {power : Int} {length : Nat}
    (h : exponent? cs = some (power, length)) : length ≤ cs.length := by
  cases cs with
  | nil =>
      cases h
      exact Nat.le_refl _
  | cons c rest =>
      simp only [exponent?] at h
      split at h
      · split at h
        · cases h
        · have sign := exponentSign_le rest
          have digits := length_takeWhile_le Char.isDigit (rest.drop (exponentSign rest).2)
          rw [List.length_drop] at digits
          cases h
          rw [List.length_cons]
          omega
      · cases h
        exact Nat.zero_le _

theorem number_le {cs : List Char} {value : F} {length : Nat}
    (h : number cs = .ok (value, length)) : length ≤ cs.length := by
  have decimal := decimal_le cs
  unfold number at h
  dsimp only at h
  split at h
  · cases h
  · split at h
    · cases h
    · next power exponentLength exponent =>
        have := exponent?_le exponent
        rw [List.length_drop] at this
        cases h
        omega

/-- A lexeme does not take more characters than there are. -/
theorem lexeme_le {rest : List Char} {found : Lexeme F} {taken : Nat}
    (h : lexeme c rest = .ok (found, taken)) : taken ≤ rest.length := by
  unfold lexeme at h
  split at h
  · cases read : (number (c :: rest) : Except (SyntaxCause F × Nat) (F × Nat)) with
    | error e =>
        rw [read] at h
        cases h
    | ok r =>
        have := number_le read
        rw [read] at h
        cases h
        rw [List.length_cons] at this
        omega
  · split at h
    · cases h
      exact length_takeWhile_le continuesName rest
    · split at h
      case h_3 =>
        -- A second star belongs to the first one.
        split at h
        · next second =>
            cases h
            cases rest with
            | nil => cases second
            | cons c rest => exact Nat.le_add_left _ _
        · cases h
          exact Nat.zero_le _
      case h_8 => cases h
      all_goals
        cases h
        exact Nat.zero_le _

section

variable (ends : continuesLexeme d = false)

include ends

theorem fraction_append (cs more : List Char) : fraction (cs ++ d :: more) = fraction cs := by
  obtain ⟨-, digit, notPoint, -⟩ := continuesLexeme_eq_false.mp ends
  cases cs with
  | nil => simp [fraction, notPoint]
  | cons c cs =>
      by_cases point : c = '.'
      · subst point
        simp only [fraction, List.cons_append, takeWhile_append_of_not digit]
      · simp [fraction, point]

theorem exponentSign_append (cs more : List Char) :
    exponentSign (cs ++ d :: more) = exponentSign cs := by
  obtain ⟨-, -, -, notPlus, notMinus, -⟩ := continuesLexeme_eq_false.mp ends
  cases cs with
  | nil => simp [exponentSign, notPlus, notMinus]
  | cons c cs =>
      by_cases minus : c = '-'
      · subst minus
        rfl
      · by_cases plus : c = '+'
        · subst plus
          rfl
        · simp [exponentSign, minus, plus]

theorem exponent?_append (cs more : List Char) : exponent? (cs ++ d :: more) = exponent? cs := by
  obtain ⟨-, digit, -⟩ := continuesLexeme_eq_false.mp ends
  cases cs with
  | nil =>
      have notE : (d == 'e' || d == 'E') = false := by
        rw [← Bool.not_eq_true, Bool.or_eq_true, beq_iff_eq, beq_iff_eq]
        rintro (rfl | rfl) <;> cases ends
      simp [exponent?, notE]
  | cons c cs =>
      simp only [exponent?, List.cons_append, exponentSign_append ends,
        List.drop_append_of_le_length (exponentSign_le cs), takeWhile_append_of_not digit]

theorem number_append (cs more : List Char) :
    (number (cs ++ d :: more) : Except (SyntaxCause F × Nat) (F × Nat)) = number cs := by
  obtain ⟨-, digit, -⟩ := continuesLexeme_eq_false.mp ends
  have whole := length_takeWhile_le Char.isDigit cs
  unfold number
  simp only [takeWhile_append_of_not digit, List.drop_append_of_le_length whole,
    fraction_append ends, List.drop_append_of_le_length (decimal_le cs), exponent?_append ends]

/-- What a lexeme cannot go on with is not looked at. -/
theorem lexeme_append (c : Char) (rest more : List Char) :
    (lexeme c (rest ++ d :: more) : Except (SyntaxCause F × Nat) (Lexeme F × Nat)) =
      lexeme c rest := by
  obtain ⟨name, -, -, -, -, notStar⟩ := continuesLexeme_eq_false.mp ends
  have star : ((rest ++ d :: more).head? == some '*') = (rest.head? == some '*') := by
    cases rest with
    | nil => simp [notStar]
    | cons c rest => rfl
  unfold lexeme
  rw [← List.cons_append, number_append ends, takeWhile_append_of_not name, star]

end

/-! ## Lexemes of texts -/

section

variable {rest : List Char} {found : Lexeme F} {taken : Nat}

theorem tokens_of_isSpace (space : isSpace c) (start : Nat) (cs : List Char) :
    tokens (F := F) start (c :: cs) = tokens (start + 1) cs := by
  rw [tokens, if_pos space]

theorem tokens_of_lexeme (space : isSpace c = false) (h : lexeme c rest = .ok (found, taken))
    (start : Nat) :
    tokens start (c :: rest) = (tokens (start + 1 + taken) (rest.drop taken)).map
      (⟨found, start, start + 1 + taken⟩ :: ·) := by
  rw [tokens, if_neg (ne_true_of_eq_false space), h]

theorem tokens_of_error (space : isSpace c = false) {e : SyntaxCause F × Nat}
    (h : lexeme c rest = .error e) (start : Nat) :
    tokens start (c :: rest) = .error (.placed (start + e.2) e.1) := by
  rw [tokens, if_neg (ne_true_of_eq_false space), h]

/-- The lexemes of tokens, if there are tokens. -/
def bare (scanned : Except (SyntaxError F) (List (Token F))) : Option (List (Lexeme F)) :=
  scanned.toOption.map fun ts ↦ ts.map Token.lexeme

omit [Arith F] in
theorem bare_eq_some {scanned : Except (SyntaxError F) (List (Token F))} {ls : List (Lexeme F)} :
    bare scanned = some ls ↔ ∃ ts, scanned = .ok ts ∧ ts.map Token.lexeme = ls := by
  cases scanned with
  | error e => simp [bare, Except.toOption]
  | ok ts => simp [bare, Except.toOption]

omit [Arith F] in
theorem bare_map_cons (tok : Token F) (scanned : Except (SyntaxError F) (List (Token F))) :
    bare (scanned.map (tok :: ·)) = (bare scanned).map (tok.lexeme :: ·) := by
  cases scanned <;> rfl

/-- The lexemes do not depend on where the text starts. -/
theorem bare_tokens (start start' : Nat) (cs : List Char) :
    bare (tokens (F := F) start cs) = bare (tokens start' cs) := by
  fun_induction tokens (F := F) start cs generalizing start' with
  | case1 start => rw [tokens]
  | case2 start c rest space ih => rw [ih, tokens_of_isSpace space]
  | case3 start c rest space cause offset h =>
      rw [tokens_of_error (eq_false_of_ne_true space) h]
      rfl
  | case4 start c rest space found taken h stop ih =>
      rw [tokens_of_lexeme (eq_false_of_ne_true space) h, bare_map_cons, bare_map_cons, ih]

variable (F) in
/-- The lexemes of a text, if it can be cut into them. -/
def lexemes (cs : List Char) : Option (List (Lexeme F)) := bare (tokens 0 cs)

@[simp] theorem lexemes_nil : lexemes F [] = some [] := by
  rw [lexemes, tokens]
  rfl

theorem lexemes_of_isSpace (space : isSpace c) (cs : List Char) :
    lexemes F (c :: cs) = lexemes F cs := by
  rw [lexemes, tokens_of_isSpace space]
  exact bare_tokens _ _ cs

theorem lexemes_space (cs : List Char) : lexemes F (' ' :: cs) = lexemes F cs :=
  lexemes_of_isSpace rfl cs

theorem lexemes_of_lexeme (space : isSpace c = false) (h : lexeme c rest = .ok (found, taken)) :
    lexemes F (c :: rest) = (lexemes F (rest.drop taken)).map (found :: ·) := by
  rw [lexemes, tokens_of_lexeme space h, bare_map_cons, bare_tokens _ 0]
  rfl

/-- A lexeme of one character. -/
theorem lexemes_of_single {ls : List (Lexeme F)} (space : isSpace c = false)
    (h : lexeme c rest = .ok (found, 0)) (read : lexemes F rest = some ls) :
    lexemes F (c :: rest) = some (found :: ls) := by
  rw [lexemes_of_lexeme space h, List.drop_zero, read, Option.map_some]

theorem lexemes_of_error (space : isSpace c = false) {e : SyntaxCause F × Nat}
    (h : lexeme c rest = .error e) : lexemes F (c :: rest) = none := by
  rw [lexemes, tokens_of_error space h]
  rfl

end

/-- A text that is put together before a character that ends lexemes has the lexemes of both
parts. -/
theorem lexemes_append (ends : continuesLexeme d = false) (cs more : List Char) :
    lexemes F (cs ++ d :: more) =
      (lexemes F cs).bind fun front ↦ (lexemes F (d :: more)).map (front ++ ·) := by
  induction length : cs.length using Nat.strongRecOn generalizing cs with
  | ind size ih =>
      cases cs with
      | nil => simp
      | cons c rest =>
          rw [List.length_cons] at length
          rw [List.cons_append]
          cases space : isSpace c with
          | true =>
              rw [lexemes_of_isSpace space, lexemes_of_isSpace space]
              exact ih rest.length (by omega) rest rfl
          | false =>
              have same := lexeme_append (F := F) ends c rest more
              cases h : lexeme (F := F) c rest with
              | error e =>
                  rw [lexemes_of_error space h, lexemes_of_error space (same.trans h)]
                  rfl
              | ok r =>
                  obtain ⟨found, taken⟩ := r
                  have shorter : (rest.drop taken).length < size := by
                    rw [List.length_drop]
                    omega
                  rw [lexemes_of_lexeme space h, lexemes_of_lexeme space (same.trans h),
                    List.drop_append_of_le_length (lexeme_le h), ih _ shorter _ rfl]
                  cases lexemes F (rest.drop taken) with
                  | none => rfl
                  | some front => cases lexemes F (d :: more) <;> rfl

/-- A parenthesis closes whatever stands before it. -/
theorem lexemes_closed {cs rest : List Char} {ls ls' : List (Lexeme F)}
    (read : lexemes F cs = some ls) (readRest : lexemes F rest = some ls') :
    lexemes F (cs ++ ')' :: rest) = some (ls ++ .closing :: ls') := by
  rw [lexemes_append rfl, read, lexemes_of_single rfl rfl readRest]
  rfl

/-! ## Blanks -/

/-- No lexeme starts with a blank. -/
theorem lexeme_of_isBlank (blank : Text.isBlank c) (rest : List Char) :
    ∃ e, lexeme (F := F) c rest = .error e := by
  obtain ⟨name, digit, point, -⟩ :=
    continuesLexeme_eq_false.mp (continuesLexeme_of_isBlank blank)
  have noNumber : startsNumber c = false := by simp [startsNumber, digit, point]
  have noName : startsName c = false := by
    simp only [continuesName, Char.isAlphanum, Bool.or_eq_false_iff] at name
    simp [startsName, name]
  unfold lexeme
  rw [noNumber, noName, if_neg Bool.false_ne_true, if_neg Bool.false_ne_true]
  split
  case h_8 => exact ⟨_, rfl⟩
  all_goals cases blank

/-- Blanks in front of a text leave no lexemes, unless they make the text unreadable. -/
theorem lexemes_of_blanks_append {blanks : List Char} (blank : ∀ c ∈ blanks, Text.isBlank c)
    {cs : List Char} {ls : List (Lexeme F)} (h : lexemes F (blanks ++ cs) = some ls) :
    lexemes F cs = some ls := by
  induction blanks with
  | nil => exact h
  | cons c blanks ih =>
      rw [List.forall_mem_cons] at blank
      rw [List.cons_append] at h
      cases space : isSpace c with
      | true =>
          rw [lexemes_of_isSpace space] at h
          exact ih blank.2 h
      | false =>
          obtain ⟨e, refused⟩ := lexeme_of_isBlank (F := F) blank.1 (blanks ++ cs)
          rw [lexemes_of_error space refused] at h
          cases h

/-- A text that can be cut has the same lexemes when it is trimmed. -/
theorem lexemes_trimChars {cs : List Char} {ls : List (Lexeme F)} (h : lexemes F cs = some ls) :
    lexemes F (Text.trimChars cs) = some ls := by
  obtain ⟨front, back, blankFront, blankBack, split⟩ := Text.exists_blanks cs
  generalize Text.trimChars cs = mid at split ⊢
  rw [split, List.append_assoc] at h
  have h := lexemes_of_blanks_append blankFront h
  cases back with
  | nil => rwa [List.append_nil] at h
  | cons d more =>
      have ends := continuesLexeme_of_isBlank (blankBack d (List.mem_cons_self ..))
      rw [lexemes_append ends, Option.bind_eq_some_iff] at h
      obtain ⟨ls', read, h⟩ := h
      obtain ⟨rest, readBack, rfl⟩ := Option.map_eq_some_iff.mp h
      rw [← List.append_nil (d :: more)] at readBack
      have none := lexemes_of_blanks_append blankBack readBack
      rw [lexemes_nil] at none
      cases none
      rw [read, List.append_nil]

theorem lexemes_trim {text : String} {ls : List (Lexeme F)} (h : lexemes F text.toList = some ls) :
    lexemes F (Text.trim text).toList = some ls := by
  rw [Text.toList_trim]
  exact lexemes_trimChars h

end Scan

/-! ## Formulas by their lexemes -/

/-- A text is a formula if its lexemes are those of a phrase that is not too long or too deep. -/
theorem Tree.ofText_eq_ok_iff_lexemes {F : Type} [Arith F] {text : String} {t : Tree F} :
    ofText text = .ok t ↔ ∃ p : Phrase F .sum, Scan.lexemes F text.toList = some p.lexemes ∧
      1 ≤ p.lexemes.length ∧ p.lexemes.length ≤ maxTokens ∧ p.nesting ≤ maxNesting ∧
      p.tree = t := by
  have exact := (Rules.exact_allowing (F := F) text.utf8ByteSize maxNesting).sum
  rw [ofText_eq_ok]
  constructor
  · rintro ⟨ts, scanned, h⟩
    obtain ⟨some, few, read⟩ := ofTokens_eq_ok.mp h
    obtain ⟨p, tree, nesting, front⟩ := exact.sound read
    have lexemes := begins_all.mp front
    refine ⟨p, Scan.bare_eq_some.mpr ⟨ts, scanned, lexemes.symm⟩, ?_, ?_, nesting, tree⟩
    · rwa [lexemes, List.length_map]
    · rwa [lexemes, List.length_map]
  · rintro ⟨p, h, some, few, nesting, rfl⟩
    obtain ⟨ts, scanned, lexemes⟩ := Scan.bare_eq_some.mp h
    rw [← lexemes, List.length_map] at some few
    have read := exact.complete p nesting (begins_all.mpr lexemes.symm) (Category.stops_nil _)
    exact ⟨ts, scanned, ofTokens_eq_ok.mpr ⟨some, few, read⟩⟩

end ScalarSolve.Formula
