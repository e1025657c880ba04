import ScalarSolve.Proofs.Expression.Curve
import ScalarSolve.Proofs.Program.Safety

/-!
# The stack under expressions

The depth that a program records is the greatest height that the value stack reaches in it.  This
holds of what is compiled, and it survives any number of maps `x - α · f(x)` built around it, each
of which takes two more values of room.  The room above the limit on compiled formulas is enough
for four such maps.  There is no limit on the number of maps, though, and once their depth is beyond
the stack the expression has no value anywhere.

So every compiled formula has a curve, and a family of maps, whose values are those of the machine.
-/

namespace ScalarSolve

open Formula

namespace Program

variable {F : Type}

/-- What the recorded depth of a program promises, by the heights that the effects of instructions
add up to from an empty stack. -/
structure Disciplined (p : Program F) : Prop where
  /-- Every instruction finds at least as many values as it takes. -/
  fed : ∀ before i after, p.code = before ++ i :: after →
    (i.operands : Int) ≤ Instr.height before
  /-- The depth is the greatest height. -/
  peak : IsGreatest {h : Int | ∃ before, before <+: p.code ∧ h = Instr.height before} p.depth
  /-- One value is left at the end. -/
  single : Instr.height p.code = 1

theorem Disciplined.of_pushes {p : Program F} (pushes : Instr.Pushes p.code p.depth) :
    p.Disciplined where
  fed before i after split := by
    have fed := Instr.operands_le_height (split ▸ pushes.fed 0)
    omega
  peak := by
    have greatest := Instr.isGreatest_peakFrom (pushes.fed 0)
    rw [pushes.peak] at greatest
    simpa using greatest
  single := by
    have height := Instr.heightFrom_eq (pushes.fed 0)
    rw [pushes.height] at height
    omega

end Program

namespace Expression

variable {F : Type}

/-- The maps `x - α · f(x)` built around an expression, one after another. -/
def residualMaps [Numeral F] (αs : List F) (e : Expression F) : Expression F :=
  αs.foldl (fun e α ↦ e.residualMap α) e

theorem pushes_residualMaps [Numeral F] {e : Expression F}
    (pushes : Instr.Pushes e.program.code e.program.depth) (αs : List F) :
    Instr.Pushes (e.residualMaps αs).program.code (e.residualMaps αs).program.depth := by
  induction αs generalizing e with
  | nil => exact pushes
  | cons α αs ih => exact ih (e := e.residualMap α) (Program.pushes_residualMap pushes α)

@[simp] theorem depth_residualMaps [Numeral F] (e : Expression F) (αs : List F) :
    (e.residualMaps αs).program.depth = e.program.depth + 2 * αs.length := by
  induction αs generalizing e with
  | nil => rfl
  | cons α αs ih =>
      change ((e.residualMap α).residualMaps αs).program.depth = _
      rw [ih, residualMap, Program.depth_residualMap, List.length_cons]
      omega

variable [Arith F]

/-- An expression is the program of the tree of its text. -/
theorem compile_eq_ok {text : String} {e : Expression F} :
    compile text = .ok e ↔ ∃ t p, Tree.ofText text = .ok t ∧ Program.ofTree t = .ok p ∧
      e = ⟨Text.trim text, p⟩ := by
  unfold compile
  cases Tree.ofText (F := F) text with
  | error err => simp [bind, Except.bind]
  | ok t =>
      cases compiled : Program.ofTree t with
      | error err => simp [bind, Except.bind, compiled]
      | ok p => simp [bind, Except.bind, pure, Except.pure, compiled, eq_comm]

theorem pushes_of_compile {text : String} {e : Expression F} (h : compile text = .ok e) :
    Instr.Pushes e.program.code e.program.depth ∧ e.program.depth ≤ maxStackDepth := by
  obtain ⟨t, p, -, compiled, rfl⟩ := compile_eq_ok.mp h
  obtain ⟨rfl, fits⟩ := Program.ofTree_eq_ok compiled
  exact ⟨Instr.pushes_code t.fold, fits⟩

/-- A compiled formula or equation, with any number of maps built around it, keeps to the stack that
its depth promises, and with at most four maps that depth is within the machine's stack. -/
theorem stack_discipline [Numeral F] {text : String} {e : Expression F}
    (compiled : compile text = .ok e ∨ compileEquation text = .ok e) (αs : List F) :
    (e.residualMaps αs).program.Disciplined ∧
      (∀ (S : Type) [Scalar F S] (x : S) (before : List (Instr F)) (stack : List S),
        Machine.run x before [] = .ok stack → (stack.length : Int) = Instr.height before) ∧
      e.program.depth ≤ 120 ∧
      (e.residualMaps αs).program.depth = e.program.depth + 2 * αs.length ∧
      (αs.length ≤ 4 → (e.residualMaps αs).program.depth ≤ 128 ∧
        ∀ (S : Type) [Scalar F S] (x : S) (why : StackFault),
          (e.residualMaps αs).evalScalar x ≠ .error (.fault why)) := by
  obtain ⟨pushes, fits⟩ := compiled.elim pushes_of_compile pushes_of_compile
  have mapped := pushes_residualMaps pushes αs
  have depth := depth_residualMaps e αs
  have limit : e.program.depth ≤ 120 := fits
  refine ⟨.of_pushes mapped, ?_, limit, depth, ?_⟩
  · intro S _ x before stack h
    simpa using Machine.length_of_run h
  · intro few
    have room : (e.residualMaps αs).program.depth ≤ 128 := by omega
    exact ⟨room, fun S _ x ↦ Program.execute_faultFree mapped room x⟩

/-- Two maps around the logistic formula, on doubles. -/
theorem stack_discipline_logistic :
    ∃ e : Expression Float, compile "x*(1-x)" = .ok e ∧
      (e.residualMaps [2, 3]).program.Disciplined ∧
      (e.residualMaps [2, 3]).program.depth = 7 ∧
      ∀ (x : Float) (why : StackFault), (e.residualMaps [2, 3]).eval x ≠ .error (.fault why) := by
  have compiled : compile "x*(1-x)" = .ok (⟨"x*(1-x)",
      ⟨[.var, .const 1, .var, .binary .sub, .binary .mul], 3⟩⟩ : Expression Float) := by
    decide +kernel
  obtain ⟨disciplined, -, -, depth, safe⟩ := stack_discipline (.inl compiled) [2, 3]
  exact ⟨_, compiled, disciplined, depth, (safe (by decide)).2 Float⟩

/-! ## More maps than there is room for -/

/-- Code that starts with so many instructions that only push. -/
structure Loads (code : List (Instr F)) (n : Nat) : Prop where
  le : n ≤ code.length
  operands : ∀ i ∈ code.take n, i.operands = 0

omit [Arith F] in
theorem Loads.of_pushes {code : List (Instr F)} {depth : Nat} (pushes : Instr.Pushes code depth) :
    Loads code 1 := by
  cases code with
  | nil =>
      have height := pushes.height 0
      simp at height
  | cons i rest =>
      refine ⟨by simp, ?_⟩
      have first : i.operands ≤ 0 := (pushes.fed 0).1
      simpa using first

omit [Arith F] in
theorem Loads.residualMaps [Numeral F] {e : Expression F} {n : Nat} (loads : Loads e.program.code n)
    (αs : List F) : Loads (e.residualMaps αs).program.code (n + 2 * αs.length) := by
  induction αs generalizing e n with
  | nil => exact loads
  | cons α αs ih =>
      have mapped : Loads (e.residualMap α).program.code (n + 2) := by
        obtain ⟨le, operands⟩ := loads
        constructor
        · simp only [residualMap, Program.residualMap, List.length_append, List.length_cons]
          omega
        · have front : (e.residualMap α).program.code.take (n + 2) =
              .var :: .const α :: e.program.code.take n := by
            simp [residualMap, Program.residualMap, List.take_append_of_le_length le]
          rw [front]
          simpa [Instr.operands] using operands
      have count : n + 2 * (α :: αs).length = n + 2 + 2 * αs.length := by
        rw [List.length_cons]
        omega
      rw [count]
      exact ih mapped

/-- More values than there is room for, pushed one after another, meet the end of the stack. -/
theorem Loads.run_eq {S : Type} [Scalar F S] {code : List (Instr F)} {n : Nat}
    (loads : Loads code n) (x : S) (stack : List S) (within : stack.length ≤ stackCapacity)
    (beyond : stackCapacity < stack.length + n) :
    Machine.run x code stack = .error (.fault .full) := by
  induction code generalizing n stack with
  | nil =>
      have := loads.le
      simp only [List.length_nil] at this
      omega
  | cons i rest ih =>
      obtain ⟨n, rfl⟩ : ∃ m, n = m + 1 := ⟨n - 1, by omega⟩
      obtain ⟨le, operands⟩ := loads
      rw [List.take_succ_cons, List.forall_mem_cons] at operands
      have pushed (v : S) : (Machine.push v stack : Except (Halt F) (List S)) >>= Machine.run x rest
          = .error (.fault .full) := by
        unfold Machine.push
        split
        · next room =>
            refine ih ⟨Nat.le_of_succ_le_succ le, operands.2⟩ (v :: stack) room ?_
            rw [List.length_cons]
            omega
        · rfl
      rw [Machine.run_cons]
      cases i with
      | const c => exact pushed _
      | var => exact pushed x
      | binary | powConst | neg | call => cases operands.1

/-- Every map around a compiled formula or equation raises the peak by two.  As long as the peak is
within the stack no evaluation runs out of it, and beyond that no evaluation gives a value.  From
sixty-four maps on, every evaluation at a finite point is stopped at the full stack. -/
theorem room_for_maps [Numeral F] {text : String} {e : Expression F}
    (compiled : compile text = .ok e ∨ compileEquation text = .ok e) (αs : List F) :
    Instr.peakFrom 0 (e.residualMaps αs).program.code = e.program.depth + 2 * αs.length ∧
      (e.program.depth + 2 * αs.length ≤ 128 →
        ∀ (S : Type) [Scalar F S] (x : S) (why : StackFault),
          (e.residualMaps αs).evalScalar x ≠ .error (.fault why)) ∧
      (128 < e.program.depth + 2 * αs.length →
        ∀ (S : Type) [Scalar F S] (x v : S), (e.residualMaps αs).evalScalar x ≠ .ok v) ∧
      (64 ≤ αs.length → ∀ (S : Type) [Scalar F S] (x : S), Scalar.isFinite F x →
        (e.residualMaps αs).evalScalar x = .error (.fault .full)) := by
  obtain ⟨pushes, -⟩ := compiled.elim pushes_of_compile pushes_of_compile
  have mapped := pushes_residualMaps pushes αs
  rw [← depth_residualMaps e αs]
  refine ⟨?_, ?_, ?_, ?_⟩
  · rw [mapped.peak, Nat.zero_add]
  · exact fun room S _ x ↦ Program.execute_faultFree mapped room x
  · intro beyond S _ x v value
    exact Nat.not_le_of_lt beyond (Program.depth_le_of_execute mapped value)
  · intro many S _ x finite
    have loads := (Loads.of_pushes pushes).residualMaps αs
    have full := loads.run_eq x [] (Nat.zero_le _) (by simp [stackCapacity]; omega)
    rw [evalScalar, Program.execute, if_pos finite, full]
    rfl

theorem compile_variable :
    compile "x" = .ok (⟨"x", ⟨[.var], 1⟩⟩ : Expression Float) := by
  decide +kernel

/-- On doubles, there is room for sixty-three maps around the variable and not for one more. -/
theorem room_for_maps_variable :
    ∃ e : Expression Float, compile "x" = .ok e ∧
      (∀ (x : Float) (why : StackFault),
        (e.residualMaps (List.replicate 63 0.5)).eval x ≠ .error (.fault why)) ∧
      (∀ x v : Float, (e.residualMaps (List.replicate 64 0.5)).eval x ≠ .ok v) ∧
      (e.residualMaps (List.replicate 64 0.5)).eval 1 = .error (.fault .full) := by
  obtain ⟨-, safe, -⟩ := room_for_maps (.inl compile_variable) (List.replicate 63 (0.5 : Float))
  obtain ⟨-, -, none, full⟩ :=
    room_for_maps (.inl compile_variable) (List.replicate 64 (0.5 : Float))
  exact ⟨_, compile_variable, safe (by decide) Float, none (by decide) Float,
    full (by decide) Float 1 (by decide)⟩

/-- Sixty-four maps around the variable need more values than there is room for, and evaluation is
stopped at the end of the stack, for the value and for the derivative alike. -/
theorem fault_of_sixtyFour_maps :
    ∃ e : Expression Float, compile "x" = .ok e ∧
      stackCapacity < Instr.peakFrom 0 (e.residualMaps (List.replicate 64 0.5)).program.code ∧
      (e.residualMaps (List.replicate 64 0.5)).eval 1 = .error (.fault .full) ∧
      (e.residualMaps (List.replicate 64 0.5)).evalDual 1 = .error (.fault .full) :=
  ⟨_, compile_variable, by decide +kernel, by decide +kernel, by decide +kernel⟩

/-! ## Curves -/

/-- A compiled formula or equation has a curve and a family of maps. -/
theorem exists_family_of_compile {text : String} {e : Expression F}
    (compiled : compile text = .ok e ∨ compileEquation text = .ok e) :
    ∃ f : Family F, e.family = .ok f ∧ e.curve = .ok f.toCurve := by
  obtain ⟨pushes, fits⟩ := compiled.elim pushes_of_compile pushes_of_compile
  have room : e.program.depth + 2 ≤ stackCapacity :=
    Nat.le_trans (Nat.add_le_add_right fits 2) (by decide)
  have plain := Program.fits_of_pushes pushes (Nat.le_of_add_right_le room)
  have mapped := Program.fits_of_pushes (Program.pushes_residualMap pushes Arith.zero) room
  exact ⟨e.familyOfFits plain mapped, (dif_pos plain).trans (dif_pos mapped), curve_of_fits plain⟩

end Expression

end ScalarSolve
