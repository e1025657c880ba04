import ScalarSolve.Proofs.Formula.Lexemes

/-!
# Literals

Numbers as they are written: digits, perhaps with a point, and perhaps an exponent part.  The
scanner reads a literal as the number that it denotes, and of a text that starts with a literal it
reads the longest one.  It reads none where there are no digits, and where the mark of an exponent
stands behind a literal but no exponent.
-/

namespace ScalarSolve

namespace Text

theorem decimalValue_snoc (ds : List Char) (d : Char) :
    decimalValue (ds ++ [d]) = 10 * decimalValue ds + (d.toNat - '0'.toNat) := by
  rw [decimalValue, List.foldl_append]
  rfl

/-- Digits in front count for as many tens as there are digits behind them. -/
theorem decimalValue_append (ds ds' : List Char) :
    decimalValue (ds ++ ds') = decimalValue ds * 10 ^ ds'.length + decimalValue ds' := by
  induction ds' using List.reverseRecOn with
  | nil => simp [decimalValue]
  | append_singleton ds' d ih =>
      rw [← List.append_assoc, decimalValue_snoc, ih, decimalValue_snoc, List.length_append,
        List.length_singleton]
      ring

end Text

namespace Formula

/-! ## Literals -/

/-- The exponent part of a literal. -/
structure Literal.Power where
  mark : Char
  sign : List Char
  digits : List Char
  mark_mem : mark = 'e' ∨ mark = 'E'
  sign_mem : sign = [] ∨ sign = ['+'] ∨ sign = ['-']
  digits_ne_nil : digits ≠ []
  isDigit_digits : ∀ c ∈ digits, c.isDigit

namespace Literal.Power

def text (p : Power) : List Char := p.mark :: (p.sign ++ p.digits)

/-- The integer that digits denote behind the sign. -/
def signed (p : Power) (ds : List Char) : Int :=
  if p.sign = ['-'] then -Text.decimalValue ds else Text.decimalValue ds

/-- The power of ten that the exponent part stands for. -/
def exponent (p : Power) : Int := p.signed p.digits

end Literal.Power

/-- A number as it is written: digits, perhaps with a point before, among or behind them, and
perhaps an exponent. -/
structure Literal where
  whole : List Char
  /-- The digits behind the point, if there is a point. -/
  places? : Option (List Char)
  power? : Option Literal.Power
  isDigit_whole : ∀ c ∈ whole, c.isDigit
  isDigit_places : ∀ c ∈ places?.getD [], c.isDigit
  digits_ne_nil : whole ++ places?.getD [] ≠ []

namespace Literal

variable (n : Literal)

def places : List Char := n.places?.getD []

/-- The text before the exponent part. -/
def decimal : List Char := n.whole ++ n.places?.elim [] ('.' :: ·)

def text : List Char := n.decimal ++ n.power?.elim [] Power.text

def coefficient : Nat := Text.decimalValue (n.whole ++ n.places)

/-- The power of ten that the coefficient is to be multiplied by. -/
def exponent : Int := n.power?.elim 0 Power.exponent - n.places.length

/-- What the literal denotes, exactly. -/
def rational : ℚ :=
  (Text.decimalValue n.whole + Text.decimalValue n.places / 10 ^ n.places.length) *
    10 ^ n.power?.elim 0 Power.exponent

/-- The number that stands for the literal. -/
def value {F : Type} [Arith F] : F := Arith.ofDecimal n.coefficient n.exponent

/-- Coefficient and exponent together are what the literal denotes. -/
theorem coefficient_mul_exponent : (n.coefficient : ℚ) * 10 ^ n.exponent = n.rational := by
  rw [coefficient, Text.decimalValue_append, exponent, rational, zpow_sub₀ (by norm_num),
    zpow_natCast]
  push_cast
  field_simp

theorem decimal_cases :
    (n.whole ≠ [] ∧ n.decimal = n.whole) ∨
      ∃ places, (∀ c ∈ places, c.isDigit) ∧ n.decimal = n.whole ++ '.' :: places := by
  obtain ⟨whole, places?, power?, _, digits, some_digit⟩ := n
  cases places? with
  | none => exact .inl ⟨by simpa using some_digit, List.append_nil _⟩
  | some places => exact .inr ⟨places, digits, rfl⟩

theorem text_ne_nil : n.text ≠ [] := by
  intro none
  obtain ⟨decimal, -⟩ := List.append_eq_nil_iff.mp none
  rcases n.decimal_cases with ⟨some_digit, whole⟩ | ⟨places, -, point⟩
  · exact some_digit (whole ▸ decimal)
  · rw [point] at decimal
    simp at decimal

theorem text_cases : n.text = n.decimal ∨ ∃ p : Power, n.text = n.decimal ++ p.text := by
  obtain ⟨whole, places?, power?, _, _, _⟩ := n
  cases power? with
  | none => exact .inl (List.append_nil _)
  | some p => exact .inr ⟨p, rfl⟩

end Literal

namespace Scan

/-! ## Exponents -/

theorem exponentSign_text (p : Literal.Power) (more : List Char) :
    exponentSign (p.sign ++ (p.digits ++ more)) = (decide (p.sign = ['-']), p.sign.length) := by
  rcases p.sign_mem with sign | sign | sign
  · obtain ⟨d, digits, split⟩ := List.exists_cons_of_ne_nil p.digits_ne_nil
    have digit : d.isDigit := p.isDigit_digits d (split ▸ List.mem_cons_self ..)
    have notMinus : d ≠ '-' := by
      rintro rfl
      cases digit
    have notPlus : d ≠ '+' := by
      rintro rfl
      cases digit
    simp [sign, split, exponentSign, notMinus, notPlus]
  · rw [sign]
    rfl
  · rw [sign]
    rfl

/-- Where an exponent part stands in front, it is read, with the digits that come behind it. -/
theorem exponent?_text (p : Literal.Power) (more : List Char) :
    exponent? (p.text ++ more) =
      some (p.signed (p.digits ++ more.takeWhile Char.isDigit),
        p.text.length + (more.takeWhile Char.isDigit).length) := by
  have split : p.text ++ more = p.mark :: (p.sign ++ (p.digits ++ more)) :=
    congrArg (p.mark :: ·) (List.append_assoc ..)
  have mark : (p.mark == 'e' || p.mark == 'E') = true := by
    rcases p.mark_mem with eq | eq <;> rw [eq] <;> rfl
  have digits : ((p.sign ++ (p.digits ++ more)).drop p.sign.length).takeWhile Char.isDigit =
      p.digits ++ more.takeWhile Char.isDigit := by
    rw [List.drop_left, List.takeWhile_append_of_pos p.isDigit_digits]
  have length : p.sign.length + (p.digits ++ more.takeWhile Char.isDigit).length + 1 =
      p.text.length + (more.takeWhile Char.isDigit).length := by
    simp only [Literal.Power.text, List.length_cons, List.length_append]
    omega
  rw [split, exponent?, if_pos mark, exponentSign_text]
  dsimp only
  rw [digits, if_neg (by simp [p.digits_ne_nil]), length]
  simp only [decide_eq_true_eq, Literal.Power.signed]

theorem exponentSign_eq (cs : List Char) :
    (cs.take (exponentSign cs).2 = [] ∨ cs.take (exponentSign cs).2 = ['+'] ∨
        cs.take (exponentSign cs).2 = ['-']) ∧
      (exponentSign cs).1 = decide (cs.take (exponentSign cs).2 = ['-']) := by
  fun_cases exponentSign cs with
  | case1 => exact ⟨.inr (.inr rfl), rfl⟩
  | case2 => exact ⟨.inr (.inl rfl), rfl⟩
  | case3 => exact ⟨.inl rfl, rfl⟩

/-- The digits at the front are what they are taken from as far as they go. -/
theorem takeWhile_eq_take (p : Char → Bool) (cs : List Char) :
    cs.takeWhile p = cs.take (cs.takeWhile p).length :=
  List.prefix_iff_eq_take.mp (List.takeWhile_prefix p)

/-- What is read as an exponent part is one, or it is nothing. -/
theorem power_of_exponent? {cs : List Char} {power : Int} {length : Nat}
    (h : exponent? cs = some (power, length)) :
    ∃ p? : Option Literal.Power, p?.elim [] Literal.Power.text = cs.take length ∧
      p?.elim 0 Literal.Power.exponent = power := by
  cases cs with
  | nil =>
      cases h
      exact ⟨none, rfl, rfl⟩
  | cons c rest =>
      simp only [exponent?] at h
      split at h
      · next mark =>
          split at h
          · cases h
          · next some_digit =>
              obtain ⟨sign_mem, negative⟩ := exponentSign_eq rest
              cases h
              let digits := (rest.drop (exponentSign rest).2).takeWhile Char.isDigit
              have digits_ne_nil : digits ≠ [] := fun none ↦
                some_digit (List.isEmpty_iff.mpr none)
              refine ⟨some ⟨c, rest.take (exponentSign rest).2, digits, by simpa using mark,
                sign_mem, digits_ne_nil, fun d mem ↦ List.mem_takeWhile_imp mem⟩, ?_, ?_⟩
              · rw [Option.elim_some, Literal.Power.text, List.take_succ_cons, List.take_add,
                  ← takeWhile_eq_take]
              · simp only [Option.elim_some, Literal.Power.exponent, Literal.Power.signed, negative,
                  decide_eq_true_eq, digits]
      · cases h
        exact ⟨none, rfl, rfl⟩

/-- Where no exponent is read after all, there is the mark of one and no exponent part. -/
theorem mark_of_exponent? {cs : List Char} (h : exponent? cs = none) :
    ∃ c rest, cs = c :: rest ∧ (c = 'e' ∨ c = 'E') ∧ ∀ p : Literal.Power, ¬p.text <+: cs := by
  cases cs with
  | nil => cases h
  | cons c rest =>
      have mark : c = 'e' ∨ c = 'E' := by
        by_contra other
        simp [exponent?, other] at h
      refine ⟨c, rest, rfl, mark, ?_⟩
      rintro p ⟨more, split⟩
      rw [← split, exponent?_text] at h
      cases h

/-! ## Decimals -/

theorem exists_places (cs : List Char) :
    ∃ places? : Option (List Char), places?.getD [] = (fraction cs).1 ∧
      places?.elim [] ('.' :: ·) = cs.take (fraction cs).2 ∧
      ∀ c ∈ places?.getD [], c.isDigit := by
  fun_cases fraction cs with
  | case1 rest =>
      refine ⟨some (rest.takeWhile Char.isDigit), rfl, ?_, fun c mem ↦ List.mem_takeWhile_imp mem⟩
      exact congrArg ('.' :: ·) (takeWhile_eq_take _ rest)
  | case2 => exact ⟨none, rfl, rfl, by simp⟩

/-- How many characters are read before an exponent part. -/
def decimalLength (cs : List Char) : Nat :=
  (cs.takeWhile Char.isDigit).length + (fraction (cs.drop (cs.takeWhile Char.isDigit).length)).2

theorem length_le_decimalLength (n : Literal) (rest : List Char) :
    n.decimal.length ≤ decimalLength (n.decimal ++ rest) := by
  unfold decimalLength
  rcases n.decimal_cases with ⟨-, decimal⟩ | ⟨places, digits, decimal⟩
  · rw [decimal, List.takeWhile_append_of_pos n.isDigit_whole, List.length_append]
    omega
  · rw [decimal, List.append_assoc, List.cons_append, takeWhile_append_of_not (d := '.') rfl,
      List.takeWhile_eq_self_iff.mpr n.isDigit_whole, List.drop_left, fraction,
      List.takeWhile_append_of_pos digits]
    simp only [List.length_append, List.length_cons]
    omega

theorem takeWhile_append_eq {p : Char → Bool} {cs : List Char} (all : ∀ c ∈ cs, p c)
    {tail : List Char} (stop : ∀ c ∈ tail.head?, p c = false) : (cs ++ tail).takeWhile p = cs := by
  cases tail with
  | nil => rwa [List.append_nil, List.takeWhile_eq_self_iff]
  | cons c rest => rw [takeWhile_append_of_not (stop c rfl), List.takeWhile_eq_self_iff.mpr all]

/-- A decimal is read up to a character that it cannot go on with. -/
theorem decimal_read (n : Literal) {tail : List Char}
    (stop : ∀ c ∈ tail.head?, c.isDigit = false ∧ c ≠ '.') :
    (n.decimal ++ tail).takeWhile Char.isDigit = n.whole ∧
      fraction ((n.decimal ++ tail).drop n.whole.length) =
        (n.places, (n.places?.elim [] ('.' :: ·)).length) := by
  rw [Literal.decimal, List.append_assoc, List.drop_left, Literal.places]
  have digits := n.isDigit_places
  cases point : n.places? with
  | none =>
      refine ⟨takeWhile_append_eq n.isDigit_whole fun c mem ↦ (stop c mem).1, ?_⟩
      cases tail with
      | nil => rfl
      | cons c rest => simp [fraction, (stop c rfl).2]
  | some places =>
      rw [point] at digits
      refine ⟨takeWhile_append_eq n.isDigit_whole (by simp), ?_⟩
      rw [Option.getD_some] at digits
      simp only [Option.elim_some, List.cons_append, fraction,
        takeWhile_append_eq digits fun c mem ↦ (stop c mem).1, Option.getD_some, List.length_cons]

/-- A decimal ends before a character that it cannot go on with. -/
theorem decimalLength_eq (n : Literal) {tail : List Char}
    (stop : ∀ c ∈ tail.head?, c.isDigit = false ∧ c ≠ '.') :
    decimalLength (n.decimal ++ tail) = n.decimal.length := by
  obtain ⟨whole, places⟩ := decimal_read n stop
  rw [decimalLength, whole, places, Literal.decimal, List.length_append]

/-- An exponent part is nothing that a decimal goes on with. -/
theorem exponent_stops (p? : Option Literal.Power) {rest : List Char}
    (last : p? = none → rest = []) :
    ∀ c ∈ (p?.elim [] Literal.Power.text ++ rest).head?, c.isDigit = false ∧ c ≠ '.' := by
  intro c mem
  cases p? with
  | none =>
      rw [last rfl] at mem
      cases mem
  | some p =>
      obtain rfl : p.mark = c := Option.some.inj mem
      rcases p.mark_mem with eq | eq <;> rw [eq] <;> decide

/-- Digits in front, perhaps with a point, are a literal without an exponent part. -/
theorem exists_decimal {cs : List Char}
    (some_digit : ¬((cs.takeWhile Char.isDigit).isEmpty &&
      (fraction (cs.drop (cs.takeWhile Char.isDigit).length)).1.isEmpty) = true) :
    ∃ n : Literal, n.power? = none ∧ n.decimal = cs.take (decimalLength cs) ∧
      n.whole = cs.takeWhile Char.isDigit ∧
      n.places = (fraction (cs.drop (cs.takeWhile Char.isDigit).length)).1 := by
  obtain ⟨places?, places, point, digits⟩ :=
    exists_places (cs.drop (cs.takeWhile Char.isDigit).length)
  refine ⟨⟨cs.takeWhile Char.isDigit, places?, none, fun c mem ↦ List.mem_takeWhile_imp mem, digits,
    ?_⟩, rfl, ?_, rfl, places⟩
  · rw [places]
    simpa using some_digit
  · rw [Literal.decimal, point, decimalLength, List.take_add, ← takeWhile_eq_take]

/-! ## Numbers -/

variable {F : Type} [Arith F]

/-- What is read as a number is a literal. -/
theorem literal_of_number {cs : List Char} {value : F} {length : Nat}
    (h : number cs = .ok (value, length)) :
    ∃ n : Literal, n.text = cs.take length ∧ n.value = value := by
  unfold number at h
  dsimp only at h
  split at h
  · cases h
  · next some_digit =>
      split at h
      · cases h
      · next power exponentLength found =>
          obtain ⟨n, -, decimal, whole, places⟩ := exists_decimal some_digit
          obtain ⟨power?, mark, exponent⟩ := power_of_exponent? found
          cases h
          refine ⟨{ n with power? := power? }, ?_, ?_⟩
          · change n.decimal ++ power?.elim [] Literal.Power.text = _
            rw [decimal, mark]
            exact List.take_add.symm
          · change Arith.ofDecimal (Text.decimalValue (n.whole ++ n.places))
              (power?.elim 0 Literal.Power.exponent - n.places.length) = _
            rw [whole, places, exponent]

/-- A literal is read as the number that it denotes. -/
theorem number_text (n : Literal) : number n.text = .ok ((n.value : F), n.text.length) := by
  have power : exponent? (n.power?.elim [] Literal.Power.text) =
      some (n.power?.elim 0 Literal.Power.exponent,
        (n.power?.elim [] Literal.Power.text).length) := by
    cases n.power? with
    | none => rfl
    | some p => simpa [Literal.Power.exponent] using exponent?_text p []
  have stop := exponent_stops n.power? fun _ ↦ rfl
  rw [List.append_nil] at stop
  obtain ⟨whole, places⟩ := decimal_read n stop
  have length := decimalLength_eq n stop
  have some_digit : ¬(n.whole.isEmpty && n.places.isEmpty) = true := by
    rw [Bool.and_eq_true, List.isEmpty_iff, List.isEmpty_iff]
    rintro ⟨whole, places⟩
    exact n.digits_ne_nil (by rw [whole, ← Literal.places, places]; rfl)
  rw [decimalLength, whole, places] at length
  unfold number
  simp only [Literal.text, whole, places, length, List.drop_left, power, if_neg some_digit,
    List.length_append]
  rfl

/-- No literal at the front of a text is longer than the one that is read. -/
theorem length_le_of_number {n : Literal} {cs : List Char} (front : n.text <+: cs) {value : F}
    {length : Nat} (h : number cs = .ok (value, length)) : n.text.length ≤ length := by
  obtain ⟨more, rfl⟩ := front
  unfold number at h
  dsimp only at h
  split at h
  · cases h
  · split at h
    · cases h
    · next power exponentLength found =>
        obtain rfl : decimalLength (n.text ++ more) + exponentLength = length :=
          congrArg Prod.snd (Except.ok.inj h)
        change exponent? (List.drop (decimalLength (n.text ++ more)) _) = _ at found
        rcases n.text_cases with text | ⟨p, text⟩
        · have := length_le_decimalLength n more
          rw [text]
          omega
        · have decimal : decimalLength (n.text ++ more) = n.decimal.length := by
            rw [text, List.append_assoc]
            exact decimalLength_eq n (exponent_stops (some p) (by simp))
          rw [decimal, text, List.append_assoc, List.drop_left, exponent?_text] at found
          cases found
          rw [decimal, text, List.length_append]
          omega

/-- Where no number is read, there are no digits, or there is a decimal with the mark of an exponent
behind it and no exponent. -/
theorem number_eq_error {cs : List Char} {cause : SyntaxCause F} {offset : Nat}
    (h : (number cs : Except (SyntaxCause F × Nat) (F × Nat)) = .error (cause, offset)) :
    (cause = .missingDigits ∧ offset = 0 ∧ cs.takeWhile Char.isDigit = [] ∧
      (fraction cs).1 = []) ∨
    (cause = .malformedExponent ∧ ∃ n : Literal, n.power? = none ∧ n.text = cs.take offset ∧
      exponent? (cs.drop offset) = none) := by
  unfold number at h
  dsimp only at h
  split at h
  · next none =>
      cases h
      rw [Bool.and_eq_true, List.isEmpty_iff, List.isEmpty_iff] at none
      obtain ⟨whole, places⟩ := none
      rw [whole] at places
      exact .inl ⟨rfl, rfl, whole, places⟩
  · next some_digit =>
      split at h
      · next found =>
          obtain ⟨n, plain, decimal, -, -⟩ := exists_decimal some_digit
          cases h
          refine .inr ⟨rfl, n, plain, ?_, found⟩
          rw [Literal.text, plain, decimal]
          exact List.append_nil _
      · cases h

end Scan

end Formula

end ScalarSolve
