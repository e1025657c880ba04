import ScalarSolve.Proofs.Expression.Source
import ScalarSolve.Proofs.Formula.Parentheses

/-!
# Equations

An equation is compiled through its text: the sides are put between parentheses with a minus between
them before anything is read.  Where both sides are formulas, what comes out is their difference.

The parentheses do not hold the sides together, though.  A side may close the one in front of it and
open another, and then the text is a formula that is no difference of the sides.  So an equation
tells of its sides only where the parentheses of these are matched.
-/

namespace ScalarSolve

open Formula

variable {F : Type} [Arith F]

/-! ## Phrases of differences -/

namespace Formula

/-- The phrase `(p)-(q)`. -/
def Phrase.difference (p q : Phrase F .sum) : Phrase F .sum :=
  .sub (.product (.power (.signed (.atom (.group p))))) (.power (.signed (.atom (.group q))))

theorem Phrase.nesting_difference (p q : Phrase F .sum) :
    (p.difference q).nesting = max (p.nesting + 1) (q.nesting + 1) := rfl

/-- Lexemes in the place of both sides of a difference. -/
def differenceOf (left right : List (Lexeme F)) : List (Lexeme F) :=
  .opening :: (left ++ .closing :: .minus :: .opening :: (right ++ [.closing]))

theorem Phrase.lexemes_difference (p q : Phrase F .sum) :
    (p.difference q).lexemes = differenceOf p.lexemes q.lexemes := by
  simp [difference, lexemes, differenceOf]

omit [Arith F] in
theorem length_differenceOf (left right : List (Lexeme F)) :
    (differenceOf left right).length = left.length + right.length + 5 := by
  simp only [differenceOf, List.length_cons, List.length_append, List.length_nil]
  omega

/-- A lexeme of one character is the first one, whether or not the rest can be cut. -/
theorem Scan.lexemes_symbol {c : Char} {rest : List Char} {found : Lexeme F}
    (space : isSpace c = false) (h : lexeme c rest = .ok (found, 0)) :
    lexemes F (c :: rest) = (lexemes F rest).map (found :: ·) :=
  lexemes_of_lexeme space h

/-- What stands between the parentheses of a difference is cut by itself. -/
theorem Scan.lexemes_differenceOf (left right : List Char) :
    lexemes F ("(".toList ++ left ++ ")-(".toList ++ right ++ ")".toList) =
      (lexemes F left).bind fun ls ↦ (lexemes F right).map fun rs ↦ differenceOf ls rs := by
  have chars : "(".toList ++ left ++ ")-(".toList ++ right ++ ")".toList =
      '(' :: (left ++ ')' :: '-' :: '(' :: (right ++ [')'])) := by
    simp
  have last : lexemes F [')'] = some [.closing] := lexemes_of_single rfl rfl lexemes_nil
  rw [chars, lexemes_symbol rfl rfl, lexemes_append rfl, lexemes_symbol rfl rfl,
    lexemes_symbol rfl rfl, lexemes_symbol rfl rfl, lexemes_append rfl, last]
  cases lexemes F left with
  | none => rfl
  | some ls => cases lexemes F right <;> rfl

namespace Tree

omit [Arith F] in
/-- An operator needs the room of either operand, with one value below that of the right one, unless
it is a constant power. -/
theorem peakFrom_binary {op : Operator} {l r : Tree F}
    (varying : ∀ n, op = .pow → r = .number n → False) :
    Instr.peakFrom 0 (binary op l r).code =
      max (Instr.peakFrom 0 l.code) (Instr.peakFrom 0 r.code + 1) := by
  have peak := ((Instr.pushes_code l).binary (Instr.pushes_code r) (i := .binary op) rfl).peak 0
  rw [code.eq_5 op l r varying, peak, Nat.zero_add]

/-- Whether a difference has room does not depend on whether it is folded: if it is, it needs less,
but both sides are numbers. -/
theorem peakFrom_difference_le {l r : Tree F} {limit : Nat} (two : 2 ≤ limit) :
    Instr.peakFrom 0 (foldedBinary .sub l r).code ≤ limit ↔
      max (Instr.peakFrom 0 l.code) (Instr.peakFrom 0 r.code + 1) ≤ limit := by
  rcases foldedBinary_cases .sub l r with eq | ⟨a, b, v, rfl, rfl, -, eq⟩
  · rw [eq, peakFrom_binary (by simp)]
  · rw [eq]
    exact iff_of_true (Nat.le_of_succ_le two) two

omit [Arith F] in
/-- The code of either operand needs no more room than that of the operator does. -/
theorem peakFrom_operands_le (op : Operator) (l r : Tree F) :
    Instr.peakFrom 0 l.code ≤ Instr.peakFrom 0 (binary op l r).code ∧
      Instr.peakFrom 0 r.code ≤ Instr.peakFrom 0 (binary op l r).code := by
  by_cases constant : ∃ n, op = .pow ∧ r = .number n
  · obtain ⟨n, rfl, rfl⟩ := constant
    have positive := (Instr.pushes_code l).depth_pos
    have written : (binary .pow l (number n)).code = l.code ++ [.powConst n] := rfl
    rw [written, Instr.peakFrom_append]
    exact ⟨Nat.le_max_left .., Nat.le_trans positive (Nat.le_max_left ..)⟩
  · have varying : ∀ n, op = .pow → r = .number n → False :=
      fun n power number ↦ constant ⟨n, power, number⟩
    rw [peakFrom_binary varying]
    exact ⟨Nat.le_max_left .., Nat.le_trans (Nat.le_succ _) (Nat.le_max_right ..)⟩

theorem peakFrom_foldedBinary_le (op : Operator) (l r : Tree F) :
    Instr.peakFrom 0 l.code ≤ Instr.peakFrom 0 (foldedBinary op l r).code ∧
      Instr.peakFrom 0 r.code ≤ Instr.peakFrom 0 (foldedBinary op l r).code := by
  rcases foldedBinary_cases op l r with eq | ⟨a, b, v, rfl, rfl, -, eq⟩
  · rw [eq]
    exact peakFrom_operands_le op l r
  · rw [eq]
    exact ⟨Nat.le_refl _, Nat.le_refl _⟩

/-- A part of a tree, compiled by itself, needs no more room than the whole does. -/
theorem Within.room {s t : Tree F} (h : s.Within t) :
    Instr.peakFrom 0 s.fold.code ≤ Instr.peakFrom 0 t.fold.code := by
  induction h with
  | refl => exact Nat.le_refl _
  | @neg t _ ih =>
      refine Nat.le_trans ih ?_
      rw [fold]
      rcases foldedNeg_cases t.fold with eq | ⟨v, number, eq⟩
      · rw [eq, code, Instr.peakFrom_append]
        exact Nat.le_max_left ..
      · rw [eq, number]
        exact Nat.le_refl _
  | left _ ih => exact Nat.le_trans ih (peakFrom_foldedBinary_le ..).1
  | right _ ih => exact Nat.le_trans ih (peakFrom_foldedBinary_le ..).2
  | @call t f _ ih =>
      refine Nat.le_trans ih ?_
      rw [fold]
      rcases foldedCall_cases f t.fold with eq | ⟨a, v, number, -, eq⟩
      · rw [eq, code, Instr.peakFrom_append]
        exact Nat.le_max_left ..
      · rw [eq, number]
        exact Nat.le_refl _

/-- The value of a difference is the difference of the values. -/
theorem valueAt_difference (l r : Tree F) (x : F) :
    (foldedBinary .sub l r).valueAt x = (do
      let a ← l.valueAt x
      let b ← r.valueAt x
      finiteAt x (a - b)) := by
  unfold valueAt
  by_cases finite : Arith.isFinite x
  · simp only [if_pos finite, value_foldedBinary]
    rfl
  · simp only [if_neg finite]
    rfl

end Tree

end Formula

namespace Expression

/-! ## Texts of equations -/

/-- The sides of a text with an equals sign are what stands before the first one and behind it. -/
theorem sides?_append {left right : String} (plain : '=' ∉ left.toList)
    (someLeft : Text.trim left ≠ "") (someRight : Text.trim right ≠ "") :
    sides? (left ++ "=" ++ right) = some (Text.trim left, Text.trim right) := by
  have chars : (left ++ "=" ++ right).toList = left.toList ++ '=' :: right.toList := by
    simp [String.toList_append]
  have before : (left.toList ++ '=' :: right.toList).takeWhile (· != '=') = left.toList := by
    rw [Scan.takeWhile_append_of_not rfl, List.takeWhile_eq_self_iff]
    exact fun c mem ↦ bne_iff_ne.mpr fun equals ↦ plain (equals ▸ mem)
  have blank {text : String} (some : Text.trim text ≠ "") :
      (Text.trimChars text.toList).isEmpty = false := by
    rw [← Bool.not_eq_true, List.isEmpty_iff]
    exact fun none ↦ some (by rw [Text.trim, none])
  unfold sides?
  simp only [chars, before, List.drop_left, blank someLeft, blank someRight, Bool.or_false,
    Bool.false_eq_true, if_false]
  rfl

theorem lexemes_equationText {left right : String} (plain : '=' ∉ left.toList)
    (someLeft : Text.trim left ≠ "") (someRight : Text.trim right ≠ "") :
    Scan.lexemes F (equationText (left ++ "=" ++ right)).toList =
      (Scan.lexemes F (Text.trim left).toList).bind fun ls ↦
        (Scan.lexemes F (Text.trim right).toList).map fun rs ↦ differenceOf ls rs := by
  rw [equationText, sides?_append plain someLeft someRight, ← Scan.lexemes_differenceOf]
  simp only [String.toList_append]

/-- The text of an expression is not blank. -/
theorem ne_empty_of_lexemes {text : String} {p : Phrase F .sum}
    (lexemes : Scan.lexemes F text.toList = some p.lexemes) : text ≠ "" := by
  rintro rfl
  have length := p.length_pos
  rw [← Option.some.inj (Scan.lexemes_nil.symm.trans lexemes)] at length
  cases length

section

variable {left right : String} (plain : '=' ∉ left.toList) {p q : Phrase F .sum}
  (lexemesLeft : Scan.lexemes F (Text.trim left).toList = some p.lexemes)
  (lexemesRight : Scan.lexemes F (Text.trim right).toList = some q.lexemes)

include plain lexemesLeft lexemesRight

/-- Between formulas, an equation is compiled as their difference. -/
theorem compileEquation_eq_ok {e : Expression F} :
    compileEquation (left ++ "=" ++ right) = .ok e ↔
      (p.difference q).lexemes.length ≤ maxTokens ∧ (p.difference q).nesting ≤ maxNesting ∧
        Instr.peakFrom 0 (p.difference q).tree.fold.code ≤ maxStackDepth ∧
        e = ⟨Text.trim (equationText (left ++ "=" ++ right)),
          ⟨(p.difference q).tree.fold.code, Instr.peakFrom 0 (p.difference q).tree.fold.code⟩⟩ := by
  have lexemes : Scan.lexemes F (equationText (left ++ "=" ++ right)).toList =
      some (p.difference q).lexemes := by
    rw [lexemes_equationText plain (ne_empty_of_lexemes lexemesLeft)
      (ne_empty_of_lexemes lexemesRight), lexemesLeft, lexemesRight, Phrase.lexemes_difference]
    rfl
  rw [compileEquation, compile_eq_ok_iff_lexemes]
  constructor
  · rintro ⟨r, read, bounds⟩
    obtain rfl : r = p.difference q :=
      Phrase.lexemes_injective .sum (Option.some.inj (read.symm.trans lexemes))
    exact bounds
  · intro bounds
    exact ⟨_, lexemes, bounds⟩

end

/-! ## Differences -/

/-- An equation between two formulas compiles, unless there is too much of both together: the sides
with the five lexemes around them have too many tokens, one side has as many nestings as there may
be, or the difference does not fit on the stack.  At every point it then gives the difference of
what its sides give there, the left one first. -/
theorem compileEquation_difference {left right : String} (plain : '=' ∉ left.toList)
    {a b : Expression F} (compiledLeft : compile (Text.trim left) = .ok a)
    (compiledRight : compile (Text.trim right) = .ok b) :
    ∃ (ts us : List (Token F)) (p q : Phrase F .sum),
      Token.ofText (Text.trim left) = .ok ts ∧ ts.map Token.lexeme = p.lexemes ∧
      Token.ofText (Text.trim right) = .ok us ∧ us.map Token.lexeme = q.lexemes ∧
      ((∃ e : Expression F, compileEquation (left ++ "=" ++ right) = .ok e) ↔
        ts.length + us.length + 5 ≤ 2048 ∧ p.nesting < 256 ∧ q.nesting < 256 ∧
          max a.program.depth (b.program.depth + 1) ≤ 120) ∧
      ∀ e : Expression F, compileEquation (left ++ "=" ++ right) = .ok e → ∀ x,
        e.eval x = (do
          let v ← a.eval x
          let w ← b.eval x
          (Tree.finiteAt x (v - w)).mapError Halt.undefined) := by
  obtain ⟨p, lexemesLeft, -, -, fitsLeft, rfl⟩ := compile_eq_ok_iff_lexemes.mp compiledLeft
  obtain ⟨q, lexemesRight, -, -, fitsRight, rfl⟩ := compile_eq_ok_iff_lexemes.mp compiledRight
  obtain ⟨ts, scannedLeft, mapLeft⟩ := Scan.bare_eq_some.mp lexemesLeft
  obtain ⟨us, scannedRight, mapRight⟩ := Scan.bare_eq_some.mp lexemesRight
  have compiled (e : Expression F) := compileEquation_eq_ok plain lexemesLeft lexemesRight (e := e)
  have room := Tree.peakFrom_difference_le (l := p.tree.fold) (r := q.tree.fold)
    (show 2 ≤ maxStackDepth by decide)
  refine ⟨ts, us, p, q, scannedLeft, mapLeft, scannedRight, mapRight, ?_, ?_⟩
  · have length : (p.difference q).lexemes.length = ts.length + us.length + 5 := by
      rw [Phrase.lexemes_difference, length_differenceOf, ← mapLeft, ← mapRight, List.length_map,
        List.length_map]
    constructor
    · rintro ⟨e, difference⟩
      obtain ⟨few, nesting, fits, -⟩ := (compiled e).mp difference
      rw [length] at few
      rw [Phrase.nesting_difference, Nat.max_le] at nesting
      exact ⟨few, nesting.1, nesting.2, room.mp fits⟩
    · rintro ⟨few, nestingLeft, nestingRight, fits⟩
      refine ⟨_, (compiled _).mpr ⟨?_, ?_, room.mpr fits, rfl⟩⟩
      · rw [length]
        exact few
      · rw [Phrase.nesting_difference]
        exact Nat.max_le.mpr ⟨nestingLeft, nestingRight⟩
  · intro e difference x
    obtain ⟨-, -, fits, rfl⟩ := (compiled e).mp difference
    rw [eval_code (room_of_fits fits), eval_code (room_of_fits fitsLeft),
      eval_code (room_of_fits fitsRight)]
    refine (congrArg _ (Tree.valueAt_difference p.tree.fold q.tree.fold x)).trans ?_
    cases p.tree.fold.valueAt x with
    | error err => rfl
    | ok v => cases q.tree.fold.valueAt x <;> rfl

/-- On doubles, the equation ` x ^ 2 = 2 * 3`, whose right side is folded to a number. -/
theorem compileEquation_difference_square :
    ∃ a b e : Expression Float, '=' ∉ " x ^ 2 ".toList ∧ compile (Text.trim " x ^ 2 ") = .ok a ∧
      compile (Text.trim " 2 * 3") = .ok b ∧
      compileEquation (" x ^ 2 " ++ "=" ++ " 2 * 3") = .ok e ∧
      e.program = ⟨[.var, .powConst 2, .const 6, .binary .sub], 2⟩ ∧
      ∀ x, e.eval x = (do
        let v ← a.eval x
        let w ← b.eval x
        (Tree.finiteAt x (v - w)).mapError Halt.undefined) := by
  have plain : '=' ∉ " x ^ 2 ".toList := by decide
  have left : compile (Text.trim " x ^ 2 ") =
      .ok (⟨"x ^ 2", ⟨[.var, .powConst 2], 1⟩⟩ : Expression Float) := by decide +kernel
  have right : compile (Text.trim " 2 * 3") =
      .ok (⟨"2 * 3", ⟨[.const 6], 1⟩⟩ : Expression Float) := by decide +kernel
  have equation : compileEquation (" x ^ 2 " ++ "=" ++ " 2 * 3") =
      .ok (⟨"(x ^ 2)-(2 * 3)", ⟨[.var, .powConst 2, .const 6, .binary .sub], 2⟩⟩ :
        Expression Float) := by decide +kernel
  obtain ⟨-, -, -, -, -, -, -, -, -, values⟩ := compileEquation_difference plain left right
  exact ⟨_, _, _, plain, left, right, equation, rfl, values _ equation⟩

/-! ## Sides -/

/-- What stands between parentheses in a formula that compiles is a formula that compiles, exactly
if it is matched. -/
theorem compile_side_iff {text : String} {ls : List (Lexeme F)}
    (lexemes : Scan.lexemes F text.toList = some ls) {p : Phrase F .sum}
    (few : p.lexemes.length ≤ maxTokens) (nesting : p.nesting ≤ maxNesting)
    (fits : Instr.peakFrom 0 p.tree.fold.code ≤ maxStackDepth) (encloses : Encloses p.lexemes ls) :
    (∃ e : Expression F, compile text = .ok e) ↔ Matched ls := by
  constructor
  · rintro ⟨e, compiled⟩
    obtain ⟨q, read, -⟩ := compile_eq_ok_iff_lexemes.mp compiled
    rw [Option.some.inj (lexemes.symm.trans read)]
    exact q.matched
  · intro matched
    obtain ⟨q, rfl, fewer, within⟩ := p.exists_enclosed matched encloses
    obtain ⟨before, after, split⟩ := encloses
    refine ⟨_, compile_eq_ok_iff_lexemes.mpr ⟨q, lexemes, ?_, ?_, ?_, rfl⟩⟩
    · rw [split] at few
      simp only [List.length_append, List.length_cons] at few
      omega
    · exact Nat.le_trans (Nat.le_of_lt fewer) nesting
    · exact Nat.le_trans within.room fits

/-- If an equation compiles, its sides can be cut into tokens, and each side is a formula exactly if
the parentheses among its tokens are matched. -/
theorem sides_of_compileEquation {left right : String} (plain : '=' ∉ left.toList)
    (someLeft : Text.trim left ≠ "") (someRight : Text.trim right ≠ "") {e : Expression F}
    (compiled : compileEquation (left ++ "=" ++ right) = .ok e) :
    ∃ ts us : List (Token F),
      Token.ofText (Text.trim left) = .ok ts ∧ Token.ofText (Text.trim right) = .ok us ∧
      ((∃ a : Expression F, compile (Text.trim left) = .ok a) ↔
        Matched (ts.map Token.lexeme)) ∧
      ((∃ b : Expression F, compile (Text.trim right) = .ok b) ↔
        Matched (us.map Token.lexeme)) := by
  obtain ⟨p, lexemes, few, nesting, fits, -⟩ := compile_eq_ok_iff_lexemes.mp compiled
  rw [lexemes_equationText plain someLeft someRight, Option.bind_eq_some_iff] at lexemes
  obtain ⟨ls, lexemesLeft, lexemes⟩ := lexemes
  obtain ⟨rs, lexemesRight, whole⟩ := Option.map_eq_some_iff.mp lexemes
  obtain ⟨ts, scannedLeft, rfl⟩ := Scan.bare_eq_some.mp lexemesLeft
  obtain ⟨us, scannedRight, rfl⟩ := Scan.bare_eq_some.mp lexemesRight
  have enclosesLeft : Encloses p.lexemes (ts.map Token.lexeme) := ⟨[], _, whole.symm⟩
  have enclosesRight : Encloses p.lexemes (us.map Token.lexeme) := by
    refine ⟨.opening :: (ts.map Token.lexeme ++ [.closing, .minus]), [], ?_⟩
    rw [← whole, differenceOf]
    simp
  exact ⟨ts, us, scannedLeft, scannedRight,
    compile_side_iff lexemesLeft few nesting fits enclosesLeft,
    compile_side_iff lexemesRight few nesting fits enclosesRight⟩

/-- In the text of `x = 1)*(2`, the side closes a parenthesis that was put in front of it, and opens
the one that is closed behind it. -/
theorem compileEquation_pasted : compileEquation ("x " ++ "=" ++ " 1)*(2") =
    .ok (⟨"(x)-(1)*(2)", ⟨[.var, .const 2, .binary .sub], 2⟩⟩ : Expression Float) := by
  decide +kernel

/-- On doubles, the sides of `x = 1)*(2`: both can be cut, and only the left one is matched. -/
theorem sides_of_compileEquation_across :
    ∃ (e : Expression Float) (ts us : List (Token Float)), '=' ∉ "x ".toList ∧
      Text.trim "x " ≠ "" ∧ Text.trim " 1)*(2" ≠ "" ∧
      compileEquation ("x " ++ "=" ++ " 1)*(2") = .ok e ∧
      Token.ofText (Text.trim "x ") = .ok ts ∧ Token.ofText (Text.trim " 1)*(2") = .ok us ∧
      ((∃ a : Expression Float, compile (Text.trim "x ") = .ok a) ↔
        Matched (ts.map Token.lexeme)) ∧
      ((∃ b : Expression Float, compile (Text.trim " 1)*(2") = .ok b) ↔
        Matched (us.map Token.lexeme)) := by
  have plain : '=' ∉ "x ".toList := by decide
  have left : Text.trim "x " ≠ "" := by decide
  have right : Text.trim " 1)*(2" ≠ "" := by decide
  obtain ⟨ts, us, sides⟩ := sides_of_compileEquation plain left right compileEquation_pasted
  exact ⟨_, ts, us, plain, left, right, compileEquation_pasted, sides⟩

/-- On doubles, `x = 1)*(2` compiles as an equation, though its right side is no formula. -/
theorem compileEquation_across :
    '=' ∉ "x ".toList ∧ Text.trim "x " ≠ "" ∧ Text.trim " 1)*(2" ≠ "" ∧
      (∃ e : Expression Float, compileEquation ("x " ++ "=" ++ " 1)*(2") = .ok e) ∧
      ∀ b : Expression Float, compile (Text.trim " 1)*(2") ≠ .ok b := by
  have side : compile (Text.trim " 1)*(2") =
      .error (⟨.unexpected .closing, some 1⟩ : SyntaxError Float) := by
    decide +kernel
  refine ⟨by decide, by decide, by decide, ⟨_, compileEquation_pasted⟩, fun b compiled ↦ ?_⟩
  cases side.symm.trans compiled

end Expression

end ScalarSolve
