import ScalarSolve.Proofs.Expression.Source

/-!
# Finite values

Every instruction that computes a value tests whether it is finite, and the variable is tested
before a program starts.  Constants are pushed without a test.  A program returns what its last
instruction leaves, so a value that is not finite comes from a program that ends with a constant,
and among compiled formulas and the maps around them that is only the formula that is a constant
itself.

Constants that were computed while folding have been tested too, all but negations.  What remains is
a literal past the finite range, alone but for signs and parentheses: it reads as infinity, and its
expression returns infinity everywhere.
-/

namespace ScalarSolve

open Formula

variable {F S : Type}

/-! ## What programs return -/

namespace Machine

section

variable [Scalar F S]

/-- A result that is finite where it is a value. -/
def Tested (r : Except (EvalError F) S) : Prop := ∀ v, r = .ok v → Scalar.isFinite F v

theorem tested_finite (x : F) (v : S) : Tested (finite x v) := by
  intro w h
  unfold finite at h
  split at h
  · next isFinite =>
      cases h
      exact isFinite
  · cases h

theorem Tested.guard {c : Prop} [Decidable c] {e : EvalError F} {r : Except (EvalError F) S}
    (tested : Tested r) : Tested (if c then .error e else r) := by
  split
  · intro v h
    cases h
  · exact tested

end

variable [Arith F] [Scalar F S]

theorem tested_operate (x : F) (op : Operator) (a b : S) : Tested (operate x op a b) := by
  cases op with
  | add => exact tested_finite x _
  | sub => exact tested_finite x _
  | mul => exact tested_finite x _
  | div => exact (tested_finite x _).guard
  | pow => exact tested_finite x _

theorem tested_apply (x : F) (f : Elementary) (a : S) : Tested (apply x f a) := by
  cases f with
  | sin => exact tested_finite x _
  | cos => exact tested_finite x _
  | tan => exact tested_finite x _
  | exp => exact tested_finite x _
  | log => exact (tested_finite x _).guard
  | sqrt => exact (tested_finite x _).guard
  | abs => exact tested_finite x _

/-- A step at a finite point leaves a finite value on top, or the constant that it has pushed. -/
theorem isFinite_of_step {x v : S} {stack rest : List S} {i : Instr F}
    (finite : Scalar.isFinite F x) (h : step x stack i = .ok (v :: rest)) :
    Scalar.isFinite F v ∨ ∃ c, i = .const c ∧ v = Scalar.constant c := by
  have computed {r : Except (EvalError F) S} {below : List S} (tested : Tested r)
      (h : leave below r = .ok (v :: rest)) : Scalar.isFinite F v := by
    cases r with
    | ok w =>
        cases h
        exact tested v rfl
    | error e => cases h
  cases i with
  | const c =>
      cases eq_cons_of_push h
      exact .inr ⟨c, rfl, rfl⟩
  | var =>
      cases eq_cons_of_push h
      exact .inl finite
  | binary op =>
      match stack, h with
      | b :: a :: _, h => exact .inl (computed (tested_operate _ op a b) h)
  | powConst n =>
      match stack, h with
      | a :: _, h => exact .inl (computed (tested_finite _ _) h)
  | neg =>
      match stack, h with
      | a :: _, h => exact .inl (computed (tested_finite _ _) h)
  | call f =>
      match stack, h with
      | a :: _, h => exact .inl (computed (tested_apply _ f a) h)

end Machine

/-- What a program returns is finite, or it is the constant that the program ends with. -/
theorem Program.isFinite_of_execute [Arith F] [Scalar F S] {p : Program F}
    (pushes : Instr.Pushes p.code p.depth) {x v : S} (h : p.execute x = .ok v) :
    Scalar.isFinite F v ∨ ∃ c, p.code.getLast? = some (.const c) ∧ v = Scalar.constant c := by
  unfold execute at h
  split at h
  · next finite =>
      cases ran : Machine.run x p.code [] with
      | error e =>
          rw [ran] at h
          cases h
      | ok stack =>
          rw [ran] at h
          obtain ⟨w, rfl⟩ := exists_single_of_run pushes ran
          obtain rfl : w = v := Except.ok.inj h
          rcases p.code.eq_nil_or_concat with empty | ⟨before, last, split⟩
          · rw [empty] at ran
            cases ran
          · rw [split, List.concat_eq_append] at ran ⊢
            rw [Machine.run_append] at ran
            cases ranBefore : Machine.run x before [] with
            | error e =>
                rw [ranBefore] at ran
                cases ran
            | ok below =>
                rw [ranBefore] at ran
                have stepped : Machine.step x below last = .ok [w] := (bind_pure _).symm.trans ran
                rw [List.getLast?_concat]
                refine (Machine.isFinite_of_step finite stepped).imp_right ?_
                rintro ⟨c, rfl, pushed⟩
                exact ⟨c, rfl, pushed⟩
  · cases h

/-! ## Literals alone -/

namespace Formula.Tree

/-- Code that ends with a constant is the code of a number. -/
theorem eq_number_of_getLast? {t : Tree F} {c : F} (h : t.code.getLast? = some (.const c)) :
    t = number c := by
  fun_cases code t with
  | case1 v =>
      cases h
      rfl
  | case2 => cases h
  | case3 | case4 | case5 | case6 => simp [code] at h

variable [Arith F]

/-- The number that a tree consists of, where it has nothing else but signs. -/
def signedNumber? : Tree F → Option F
  | number v => some v
  | neg t => t.signedNumber?.map (-·)
  | var | binary _ _ _ | call _ _ => none

theorem fold_of_signedNumber? {t : Tree F} {c : F} (h : t.signedNumber? = some c) :
    t.fold = number c := by
  induction t generalizing c with
  | number v =>
      cases h
      rfl
  | neg t ih =>
      obtain ⟨v, operand, rfl⟩ := Option.map_eq_some_iff.mp h
      rw [fold, ih operand]
      rfl
  | var | binary | call => cases h

/-- Folding makes no number that is not finite out of anything but one. -/
theorem signedNumber?_of_fold (isFinite_neg : ∀ v : F, Arith.isFinite v → Arith.isFinite (-v))
    {t : Tree F} {c : F} (h : t.fold = number c) (infinite : ¬ Arith.isFinite c) :
    t.signedNumber? = some c := by
  induction t generalizing c with
  | number v =>
      cases h
      rfl
  | var => cases h
  | neg t ih =>
      rw [fold] at h
      rcases foldedNeg_cases t.fold with eq | ⟨v, operand, eq⟩
      · cases eq.symm.trans h
      · cases eq.symm.trans h
        have operandInfinite : ¬ Arith.isFinite v := fun finite ↦ infinite (isFinite_neg v finite)
        exact Option.map_eq_some_iff.mpr ⟨v, ih operand operandInfinite, rfl⟩
  | binary op l r =>
      rw [fold] at h
      rcases foldedBinary_cases op l.fold r.fold with eq | ⟨a, b, v, -, -, computed, eq⟩
      · cases eq.symm.trans h
      · cases eq.symm.trans h
        exact absurd (portable_operatorAt op a b _ _ computed).1 infinite
  | call f t =>
      rw [fold] at h
      rcases foldedCall_cases f t.fold with eq | ⟨a, v, -, computed, eq⟩
      · cases eq.symm.trans h
      · cases eq.symm.trans h
        exact absurd (portable_callAt f a _ _ computed).1 infinite

end Formula.Tree

/-! ## Expressions -/

namespace Expression

theorem getLast?_residualMaps [Numeral F] (e : Expression F) {αs : List F} (some_map : αs ≠ []) :
    (e.residualMaps αs).program.code.getLast? = some (.binary .sub) := by
  obtain ⟨inner, α, rfl⟩ := (αs.eq_nil_or_concat).resolve_left some_map
  rw [List.concat_eq_append, residualMaps, List.foldl_append]
  change (_ ++ [Instr.binary Operator.mul, .binary .sub]).getLast? = _
  rw [List.getLast?_append]
  rfl

variable [Arith F]

/-- The text of an expression is nothing but a literal past the finite range, which with its signs
and parentheses reads as `c`. -/
def Overflows (e : Expression F) (c : F) : Prop :=
  ∃ t, Tree.ofText e.source = .ok t ∧ t.signedNumber? = some c ∧ ¬ Arith.isFinite c

/-- The program of a compiled expression is the code of the folded tree of its source. -/
theorem code_of_compile {text : String} {e : Expression F} (h : compile text = .ok e) :
    ∃ t, Tree.ofText e.source = .ok t ∧ e.program.code = t.fold.code := by
  obtain ⟨t, p, read, compiled, eq⟩ := compile_eq_ok.mp (compile_source h)
  obtain ⟨rfl, -⟩ := Program.ofTree_eq_ok compiled
  refine ⟨t, read, ?_⟩
  rw [eq]

/-- Over scalars whose constants are finite where the number is, an expression with maps around it
has finite values only, and one without maps has no other value but a literal past the range. -/
theorem isFinite_or_overflows [Numeral F] [Scalar F S]
    (isFinite_neg : ∀ v : F, Arith.isFinite v → Arith.isFinite (-v))
    (isFinite_constant : ∀ c : F, Arith.isFinite c → Scalar.isFinite F (Scalar.constant c : S))
    {text : String} {e : Expression F} (compiled : compile text = .ok e) {αs : List F} {x v : S}
    (h : (e.residualMaps αs).evalScalar x = .ok v) :
    Scalar.isFinite F v ∨ αs = [] ∧ ∃ c, e.Overflows c ∧ v = Scalar.constant c := by
  have pushes := pushes_residualMaps (pushes_of_compile compiled).1 αs
  rcases Program.isFinite_of_execute pushes h with finite | ⟨c, last, rfl⟩
  · exact .inl finite
  by_cases none : αs = []
  · subst none
    by_cases finite : Arith.isFinite c
    · exact .inl (isFinite_constant c finite)
    · obtain ⟨t, read, code⟩ := code_of_compile compiled
      have number : t.fold = .number c := Tree.eq_number_of_getLast? (code ▸ last)
      exact .inr ⟨rfl, c, ⟨t, read, Tree.signedNumber?_of_fold isFinite_neg number finite, finite⟩,
        rfl⟩
  · cases (getLast?_residualMaps e none).symm.trans last

theorem eval_of_overflows {text : String} {e : Expression F} (compiled : compile text = .ok e)
    {c : F} (h : e.Overflows c) {x : F} (finite : Arith.isFinite x) : e.eval x = .ok c := by
  obtain ⟨t, read, number, -⟩ := h
  obtain ⟨t', read', code⟩ := code_of_compile compiled
  obtain rfl : t' = t := Except.ok.inj (read'.symm.trans read)
  rw [Tree.fold_of_signedNumber? number] at code
  have program : e.program = ⟨(Tree.number c).code, e.program.depth⟩ := by rw [← code]
  rw [eval, program, Program.execute_code (.number c) (show 1 ≤ stackCapacity by decide)]
  exact if_pos (show Scalar.isFinite F x from finite)

/-- Values of doubles and of dual numbers are finite in both components, for every compiled formula
or equation with any number of maps around it, but for one kind of formula: a literal past the
finite range, with nothing else than signs and parentheses, and without a map.  Its value is
infinite at every finite point. -/
theorem finite_unless_overflows {text : String} {e : Expression Float}
    (compiled : compile text = .ok e ∨ compileEquation text = .ok e) (αs : List Float) :
    (∀ x v : Float, (e.residualMaps αs).eval x = .ok v →
      Arith.isFinite v ∨ αs = [] ∧ e.Overflows v) ∧
    (∀ a v : Dual Float, (e.residualMaps αs).evalScalar a = .ok v →
      Arith.isFinite v.re ∧ Arith.isFinite v.eps ∨
        αs = [] ∧ ∃ c, e.Overflows c ∧ v = Dual.constant c) ∧
    ∀ c, e.Overflows c → ¬ Arith.isFinite c ∧ ∀ x : Float, Arith.isFinite x → e.eval x = .ok c := by
  obtain ⟨text', compiled⟩ : ∃ text', compile text' = .ok e :=
    compiled.elim (⟨_, ·⟩) (⟨_, ·⟩)
  refine ⟨?_, ?_, ?_⟩
  · intro x v h
    refine (isFinite_or_overflows Double.isFinite_neg (fun c ↦ id) compiled h).imp_right ?_
    rintro ⟨none, c, overflows, rfl⟩
    exact ⟨none, overflows⟩
  · intro a v h
    have isFinite_constant (c : Float) (finite : Arith.isFinite c) :
        Scalar.isFinite Float (Dual.constant c) :=
      Bool.and_eq_true_iff.mpr ⟨finite, show Arith.isFinite (Arith.zero : Float) by decide⟩
    exact (isFinite_or_overflows Double.isFinite_neg isFinite_constant compiled h).imp_left
      Bool.and_eq_true_iff.mp
  · exact fun c overflows ↦
      ⟨overflows.choose_spec.2.2, fun x finite ↦ eval_of_overflows compiled overflows finite⟩

/-- On doubles, a map around a square, and a literal past the range behind a sign. -/
theorem finite_unless_overflows_square :
    ∃ e e' : Expression Float, compile "x*x" = .ok e ∧
      (e.residualMaps [0.5]).eval 3 = .ok (-1.5) ∧ Arith.isFinite (-1.5 : Float) ∧
      compile "-(1e400)" = .ok e' ∧ e'.Overflows (-1 / 0) ∧ e'.eval 3 = .ok (-1 / 0) := by
  have compiled : compile "x*x" =
      .ok (⟨"x*x", ⟨[.var, .var, .binary .mul], 2⟩⟩ : Expression Float) := by
    decide +kernel
  have value : (residualMaps [0.5] ⟨"x*x", ⟨[.var, .var, .binary .mul], 2⟩⟩).eval (3 : Float) =
      .ok (-1.5) := by
    decide +kernel
  have compiled' : compile "-(1e400)" =
      .ok (⟨"-(1e400)", ⟨[.const (-1 / 0)], 1⟩⟩ : Expression Float) := by
    decide +kernel
  have overflows : Overflows (⟨"-(1e400)", ⟨[.const (-1 / 0)], 1⟩⟩ : Expression Float) (-1 / 0) :=
    ⟨.neg (.number (1 / 0)), by decide +kernel, by decide +kernel, by decide⟩
  obtain ⟨finite, -, -⟩ := finite_unless_overflows (.inl compiled) [0.5]
  obtain ⟨-, -, infinite⟩ := finite_unless_overflows (.inl compiled') []
  refine ⟨_, _, compiled, value, ?_, compiled', overflows, ?_⟩
  · exact (finite 3 _ value).resolve_right (by simp)
  · exact (infinite _ overflows).2 3 (by decide)

/-- On doubles, a literal past the finite range is a formula with an infinite value, in the dual
pass too. -/
theorem eval_pastRange :
    ∃ e : Expression Float, compile "1e400" = .ok e ∧
      ∃ v, e.eval 1 = .ok v ∧ ¬ Arith.isFinite v ∧ e.evalDual 1 = .ok ⟨v, 0⟩ := by
  have compiled : compile "1e400" =
      .ok (⟨"1e400", ⟨[.const (1 / 0)], 1⟩⟩ : Expression Float) := by
    decide +kernel
  exact ⟨_, compiled, 1 / 0, by decide +kernel, by decide +kernel, by decide +kernel⟩

end Expression

end ScalarSolve
