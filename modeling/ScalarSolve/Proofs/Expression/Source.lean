import ScalarSolve.Proofs.Expression.Stack
import ScalarSolve.Proofs.Formula.Spelling
import ScalarSolve.Proofs.Program.Correctness

/-!
# The text of an expression

An expression carries the text that it stands for.  The text of a compiled formula compiles to the
same expression again.  The text of a map `x - α · f(x)` is put together from texts while its
program is put together from programs, and from its text another program may come: where `f` is
constant the product is folded.  The two programs have the same values all the same.

The comparison goes through trees.  A program that maps were built around is the code of a tree in
which they are not folded, and that tree is *spliced* for the one that the text gives.
-/

namespace ScalarSolve

open Formula

variable {F : Type}

/-! ## Decimals in a text -/

/-- A decimal without an exponent part: perhaps a minus, then digits, then perhaps a point with more
digits behind it. -/
structure PlainDecimal where
  negative : Bool
  whole : List Char
  places : List Char
  whole_ne_nil : whole ≠ []
  isDigit_whole : ∀ c ∈ whole, c.isDigit
  isDigit_places : ∀ c ∈ places, c.isDigit

namespace PlainDecimal

variable (d : PlainDecimal)

/-- The text behind the sign. -/
def unsigned : List Char := d.whole ++ if d.places.isEmpty then [] else '.' :: d.places

def text : List Char := if d.negative then '-' :: d.unsigned else d.unsigned

variable [Arith F]

/-- The number behind the sign. -/
def magnitude : F :=
  Arith.ofDecimal (Text.decimalValue (d.whole ++ d.places)) (-d.places.length)

def value : F := if d.negative then -d.magnitude else d.magnitude

/-- The decimal behind the sign, as a literal. -/
def literal : Literal where
  whole := d.whole
  places? := if d.places.isEmpty then none else some d.places
  power? := none
  isDigit_whole := d.isDigit_whole
  isDigit_places := by
    have digits := d.isDigit_places
    split
    · simp
    · exact digits
  digits_ne_nil := List.append_ne_nil_of_left_ne_nil d.whole_ne_nil _

omit [Arith F] in
theorem text_literal : d.literal.text = d.unsigned := by
  obtain ⟨negative, whole, places, _, _, _⟩ := d
  cases places <;> simp [literal, Literal.text, Literal.decimal, unsigned]

theorem value_literal : d.literal.value = d.magnitude (F := F) := by
  obtain ⟨negative, whole, places, _, _, _⟩ := d
  cases places <;> simp [literal, Literal.value, Literal.coefficient, Literal.exponent,
    Literal.places, magnitude]

theorem lexemes_unsigned : Scan.lexemes F d.unsigned = some [.number d.magnitude] := by
  rw [← d.text_literal, ← d.value_literal]
  exact Scan.lexemes_of_spells (.number d.literal)

/-- The decimal as an operand. -/
def operand : Phrase F .signed :=
  if d.negative then .minus (.atom (.number d.magnitude)) else .atom (.number d.magnitude)

/-- The decimal as a formula. -/
def phrase : Phrase F .sum := .product (.power (.signed d.operand))

theorem lexemes_text : Scan.lexemes F d.text = some (d.phrase (F := F)).lexemes := by
  unfold text phrase operand
  cases d.negative with
  | false => exact d.lexemes_unsigned
  | true =>
      have minus : Scan.lexeme (F := F) '-' d.unsigned = .ok (.minus, 0) := rfl
      rw [if_pos rfl, if_pos rfl, Scan.lexemes_of_lexeme rfl minus, List.drop_zero,
        d.lexemes_unsigned]
      rfl

theorem fold_phrase : (d.phrase (F := F)).tree.fold = .number d.value := by
  unfold phrase operand value
  cases d.negative <;> rfl

end PlainDecimal

/-- The text of a number is a plain decimal that denotes the number. -/
def Numeral.ReadsBack [Arith F] [Numeral F] (α : F) : Prop :=
  ∃ d : PlainDecimal, (Numeral.text α).toList = d.text ∧ d.value = α

variable [Arith F]

namespace Formula

theorem Phrase.length_pos {c : Category} (p : Phrase F c) : 1 ≤ p.lexemes.length := by
  induction p with
  | product p ih | power p ih | signed p ih | atom p ih => exact ih
  | number | leaf => exact Nat.le_refl 1
  | add | sub | mul | div | pow | plus | minus | call | group =>
      simp only [lexemes, List.length_append, List.length_cons]
      omega

/-! ## Maps in a text -/

/-- The phrase `x - (p) * (q)`. -/
def Phrase.residual (p q : Phrase F .sum) : Phrase F .sum :=
  .sub (.product (.power (.signed (.atom (.leaf "x" .var rfl)))))
    (.mul (.power (.signed (.atom (.group p)))) (.signed (.atom (.group q))))

theorem Phrase.lexemes_residual (p q : Phrase F .sum) :
    (p.residual q).lexemes = .name "x" :: .minus :: .opening :: (p.lexemes ++
      .closing :: .star :: .opening :: (q.lexemes ++ [.closing])) := by
  simp [residual, lexemes]

theorem Scan.lexemes_residual {a b : List Char} {p q : Phrase F .sum}
    (hp : lexemes F a = some p.lexemes) (hq : lexemes F b = some q.lexemes) :
    lexemes F ("x - (".toList ++ a ++ ") * (".toList ++ b ++ ")".toList) =
      some (p.residual q).lexemes := by
  have chars : "x - (".toList ++ a ++ ") * (".toList ++ b ++ ")".toList =
      'x' :: ' ' :: '-' :: ' ' :: '(' :: (a ++
        ')' :: ' ' :: '*' :: ' ' :: '(' :: (b ++ [')'])) := by
    simp
  rw [chars, Phrase.lexemes_residual]
  refine lexemes_of_single rfl rfl ?_
  rw [lexemes_space]
  refine lexemes_of_single rfl rfl ?_
  rw [lexemes_space]
  refine lexemes_of_single rfl rfl (lexemes_closed hp ?_)
  rw [lexemes_space]
  refine lexemes_of_single rfl rfl ?_
  rw [lexemes_space]
  exact lexemes_of_single rfl rfl (lexemes_closed hq lexemes_nil)

/-! ## Spliced trees -/

namespace Tree

/-- The tree of `x - α · t`. -/
def residual (α : F) (t : Tree F) : Tree F := .binary .sub .var (.binary .mul (.number α) t)

omit [Arith F] in
theorem code_residual (α : F) (t : Tree F) (depth : Nat) :
    (residual α t).code = (Program.residualMap α ⟨t.code, depth⟩).code := by
  simp [residual, code, Program.residualMap]

omit [Arith F] in
theorem peakFrom_residual (α : F) (t : Tree F) :
    Instr.peakFrom 0 (residual α t).code = Instr.peakFrom 0 t.code + 2 := by
  have pushes := Program.pushes_residualMap (p := ⟨t.code, _⟩) (Instr.pushes_code t) α
  rw [code_residual, pushes.peak, Nat.zero_add, Program.depth_residualMap]

/-- Folding a residual map leaves the difference, of which one operand varies. -/
theorem fold_residual {p q : Phrase F .sum} {α : F} (number : p.tree.fold = .number α) :
    (p.residual q).tree.fold =
      .binary .sub .var (foldedBinary .mul (.number α) q.tree.fold) := by
  rw [← number]
  rfl

/-- A tree that takes the place of a folded one: it has the same values, it needs room for at most
one value more, and where the folded one is a number it is that number. -/
structure Spliced (w t : Tree F) : Prop where
  value : ∀ x, w.value x = t.value x
  room : Instr.peakFrom 0 w.code ≤ Instr.peakFrom 0 t.code + 1
  number : ∀ v, t = .number v → w = t

namespace Spliced

theorem refl (t : Tree F) : Spliced t t where
  value _ := rfl
  room := Nat.le_succ _
  number _ _ := rfl

/-- A map around the one tree takes the place of a map around the other one with the product
folded. -/
theorem residual {w t : Tree F} (h : Spliced w t) (α : F) :
    Spliced (w.residual α) (.binary .sub .var (foldedBinary .mul (.number α) t)) := by
  rcases foldedBinary_cases .mul (.number α) t with eq | ⟨a, b, v, left, right, computed, eq⟩
  · rw [eq]
    constructor
    case value =>
      intro x
      simp only [Tree.residual, Tree.value, h.value x]
    case room =>
      change _ ≤ Instr.peakFrom 0 (Tree.residual α t).code + 1
      rw [peakFrom_residual, peakFrom_residual]
      exact Nat.add_le_add_right h.room 2
    case number =>
      intro v difference
      cases difference
  · -- Both factors are numbers, and so the tree on the left is the number on the right as well.
    obtain rfl := h.number b right
    obtain rfl := right
    cases left
    rw [eq]
    constructor
    case value =>
      intro x
      have product : operatorAt x .mul α b = .ok v :=
        (portable_operatorAt .mul α b _ v computed).2 x
      change (do
        let y ← operatorAt x .mul α b
        operatorAt x .sub x y) = operatorAt x .sub x v
      rw [product]
      rfl
    case room => exact Nat.le_refl 3
    case number =>
      intro v difference
      cases difference

end Spliced

end Tree

end Formula

/-! ## Expressions and their texts -/

namespace Expression

/-- The formulas that are compiled, by their lexemes. -/
theorem compile_eq_ok_iff_lexemes {text : String} {e : Expression F} :
    compile text = .ok e ↔ ∃ p : Phrase F .sum, Scan.lexemes F text.toList = some p.lexemes ∧
      p.lexemes.length ≤ maxTokens ∧ p.nesting ≤ maxNesting ∧
      Instr.peakFrom 0 p.tree.fold.code ≤ maxStackDepth ∧
      e = ⟨Text.trim text, ⟨p.tree.fold.code, Instr.peakFrom 0 p.tree.fold.code⟩⟩ := by
  rw [compile_eq_ok]
  constructor
  · rintro ⟨t, program, read, compiled, rfl⟩
    obtain ⟨p, lexemes, -, few, nesting, rfl⟩ := Tree.ofText_eq_ok_iff_lexemes.mp read
    obtain ⟨rfl, fits⟩ := Program.ofTree_eq_ok compiled
    exact ⟨p, lexemes, few, nesting, fits, rfl⟩
  · rintro ⟨p, lexemes, few, nesting, fits, rfl⟩
    refine ⟨p.tree, _, Tree.ofText_eq_ok_iff_lexemes.mpr
      ⟨p, lexemes, p.length_pos, few, nesting, rfl⟩, ?_, rfl⟩
    exact if_neg (Nat.not_lt_of_le fits)

omit [Arith F] in
/-- What is within the limit on compiled formulas is within the stack. -/
theorem room_of_fits {code : List (Instr F)} (fits : Instr.peakFrom 0 code ≤ maxStackDepth) :
    Instr.peakFrom 0 code ≤ stackCapacity :=
  Nat.le_trans fits (by decide)

/-- The value of an expression is that of the tree whose code it is. -/
theorem eval_code {t : Formula.Tree F} (room : Instr.peakFrom 0 t.code ≤ stackCapacity)
    (source : String) (depth : Nat) (x : F) :
    (⟨source, ⟨t.code, depth⟩⟩ : Expression F).eval x = (t.valueAt x).mapError .undefined := by
  rw [eval, Program.execute_code_self t room]

/-- The text of an expression has the lexemes of `q`, and its program is the code of a tree that
takes the place of the one that `q` is folded to. -/
structure StandsFor (e : Expression F) (q : Phrase F .sum) (w : Formula.Tree F) : Prop where
  lexemes : Scan.lexemes F e.source.toList = some q.lexemes
  code : e.program.code = w.code
  spliced : w.Spliced q.tree.fold

theorem standsFor_of_compile {text : String} {e : Expression F} (h : compile text = .ok e) :
    ∃ q : Phrase F .sum, e.StandsFor q q.tree.fold := by
  obtain ⟨q, lexemes, -, -, -, rfl⟩ := compile_eq_ok_iff_lexemes.mp h
  exact ⟨q, Scan.lexemes_trim lexemes, rfl, .refl _⟩

/-- Compiling the text of a compiled formula gives the formula again. -/
theorem compile_source {text : String} {e : Expression F} (h : compile text = .ok e) :
    compile e.source = .ok e := by
  obtain ⟨q, lexemes, few, nesting, fits, rfl⟩ := compile_eq_ok_iff_lexemes.mp h
  refine compile_eq_ok_iff_lexemes.mpr ⟨q, Scan.lexemes_trim lexemes, few, nesting, fits, ?_⟩
  rw [Text.trim_trim]

theorem StandsFor.residualMap [Numeral F] {e : Expression F} {q : Phrase F .sum}
    {w : Formula.Tree F} (h : e.StandsFor q w) {α : F} (reads : Numeral.ReadsBack α) :
    ∃ q' : Phrase F .sum, (e.residualMap α).StandsFor q' (w.residual α) := by
  obtain ⟨d, text, rfl⟩ := reads
  refine ⟨(d.phrase (F := F)).residual q, ?_, ?_, ?_⟩
  · have source : (e.residualMap d.value).source.toList =
        "x - (".toList ++ d.text ++ ") * (".toList ++ e.source.toList ++ ")".toList := by
      rw [← text]
      simp only [Expression.residualMap, String.toList_append]
    rw [source]
    exact Scan.lexemes_residual d.lexemes_text h.lexemes
  · rw [Tree.code_residual _ _ 0]
    simp only [Expression.residualMap, Program.residualMap, h.code]
  · rw [Tree.fold_residual d.fold_phrase]
    exact h.spliced.residual _

theorem StandsFor.residualMaps [Numeral F] {αs : List F} (reads : ∀ α ∈ αs, Numeral.ReadsBack α)
    {e : Expression F} {q : Phrase F .sum} {w : Formula.Tree F} (h : e.StandsFor q w) :
    ∃ q' w', (e.residualMaps αs).StandsFor q' w' := by
  induction αs generalizing e q w with
  | nil => exact ⟨q, w, h⟩
  | cons α αs ih =>
      rw [List.forall_mem_cons] at reads
      obtain ⟨q', mapped⟩ := h.residualMap reads.1
      exact ih reads.2 mapped

/-- What the text of an expression compiles to has the values of the expression. -/
theorem StandsFor.eval_eq {e e' : Expression F} {q : Phrase F .sum} {w : Formula.Tree F}
    (h : e.StandsFor q w) (again : compile e.source = .ok e') (x : F) : e'.eval x = e.eval x := by
  obtain ⟨q', lexemes, -, -, fits, rfl⟩ := compile_eq_ok_iff_lexemes.mp again
  -- The text is the text of one phrase only, so this is the tree that `w` takes the place of.
  obtain rfl : q' = q :=
    Phrase.lexemes_injective .sum (Option.some.inj (lexemes.symm.trans h.lexemes))
  have room : Instr.peakFrom 0 w.code ≤ stackCapacity :=
    Nat.le_trans h.spliced.room (Nat.le_trans (Nat.succ_le_succ fits) (by decide))
  have program : e = ⟨e.source, ⟨w.code, e.program.depth⟩⟩ := by rw [← h.code]
  rw [program, eval_code (room_of_fits fits), eval_code room, Tree.valueAt, Tree.valueAt,
    h.spliced.value]

/-- The text of a compiled formula or equation compiles to the same expression again.  With maps
built around it by finite numbers whose texts read back to them, its text may compile to another
program, but one that has the same value or the same error at every point. -/
theorem source_faithful [Numeral F] {text : String} {e : Expression F}
    (compiled : compile text = .ok e ∨ compileEquation text = .ok e) :
    compile e.source = .ok e ∧
      ∀ αs : List F, (∀ α ∈ αs, Arith.isFinite α) →
        (∀ α ∈ αs, Arith.isFinite α → Numeral.ReadsBack α) →
        ∀ e', compile (e.residualMaps αs).source = .ok e' →
          ∀ x, e'.eval x = (e.residualMaps αs).eval x := by
  refine ⟨compiled.elim compile_source compile_source, ?_⟩
  intro αs finite reads e' again x
  obtain ⟨q, stands⟩ := compiled.elim standsFor_of_compile standsFor_of_compile
  obtain ⟨q', w', mapped⟩ := stands.residualMaps fun α mem ↦ reads α mem (finite α mem)
  exact mapped.eval_eq again x

/-- On doubles, two maps around a constant: the product of the inner one is folded in the text, and
the programs have different sizes and the same values. -/
theorem source_faithful_constant :
    ∃ e e' : Expression Float, compile " 2\t" = .ok e ∧ compile e.source = .ok e ∧
      compile (e.residualMaps [-0.5, 3]).source = .ok e' ∧
      e'.source = "x - (3) * (x - (-0.5) * (2))" ∧
      (e.residualMaps [-0.5, 3]).size = 9 ∧ e'.size = 7 ∧
      ∀ x, e'.eval x = (e.residualMaps [-0.5, 3]).eval x := by
  have compiled : compile " 2\t" = .ok (⟨"2", ⟨[.const 2], 1⟩⟩ : Expression Float) := by
    decide +kernel
  have again : compile (residualMaps [-0.5, 3] ⟨"2", ⟨[.const 2], 1⟩⟩).source =
      .ok (⟨"x - (3) * (x - (-0.5) * (2))",
        ⟨[.var, .const 3, .var, .const (-1), .binary .sub, .binary .mul, .binary .sub], 4⟩⟩ :
        Expression Float) := by
    decide +kernel
  have half : Numeral.ReadsBack (-0.5 : Float) :=
    ⟨⟨true, ['0'], ['5'], by decide, by simp, by simp⟩, by decide +kernel, by decide +kernel⟩
  have three : Numeral.ReadsBack (3 : Float) :=
    ⟨⟨false, ['3'], [], by decide, by simp, by simp⟩, by decide +kernel, by decide +kernel⟩
  obtain ⟨same, maps⟩ := source_faithful (.inl compiled)
  refine ⟨_, _, compiled, same, again, rfl, rfl, rfl, maps [-0.5, 3] ?_ ?_ _ again⟩
  · decide +kernel
  · simp only [List.forall_mem_cons, List.not_mem_nil]
    exact ⟨fun _ ↦ half, fun _ ↦ three, by simp⟩

end Expression

end ScalarSolve
