import ScalarSolve.Proofs.Expression.Stack
import ScalarSolve.Proofs.Result

/-!
# The values of maps

The program for `x - α · f(x)` runs the program for `f` above two values of its own, the variable
and `α`.  Fed code does not look below the values that it has pushed itself, so what it does there
is what it does on an empty stack, as long as there is room for both.  The map then has its value
from the value of `f` by one product and one difference, over any scalars.
-/

namespace ScalarSolve

open Formula

variable {F S : Type} [Arith F] [Scalar F S]

/-! ## Values below -/

namespace Machine

/-- An instruction that finds its operands leaves the values below them alone. -/
theorem step_frame {x : S} {stack : List S} {i : Instr F} (fed : i.operands ≤ stack.length)
    (below : List S) (room : i.heightAfter (stack ++ below).length ≤ stackCapacity) :
    step x (stack ++ below) i = (step x stack i).map (· ++ below) := by
  have computed (r : Except (EvalError F) S) (rest : List S) :
      leave (rest ++ below) r = (leave rest r).map (· ++ below) := by
    cases r <;> rfl
  have pushed (v : S) (room : (stack ++ below).length + 1 ≤ stackCapacity) :
      (push v (stack ++ below) : Except (Halt F) (List S)) = (push v stack).map (· ++ below) := by
    have alone : stack.length + 1 ≤ stackCapacity := by
      rw [List.length_append] at room
      omega
    rw [push_of_room room, push_of_room alone]
    rfl
  cases i with
  | const c => exact pushed (Scalar.constant c) room
  | var => exact pushed x room
  | binary op =>
      match stack, fed with
      | b :: a :: rest, _ => exact computed (operate _ op a b) rest
  | powConst n =>
      match stack, fed with
      | a :: rest, _ => exact computed (finite _ _) rest
  | neg =>
      match stack, fed with
      | a :: rest, _ => exact computed (finite _ _) rest
  | call f =>
      match stack, fed with
      | a :: rest, _ => exact computed (apply _ f a) rest

/-- Fed code leaves the values below its stack alone, given room for them and for its peak. -/
theorem run_frame {x : S} {code : List (Instr F)} (stack below : List S)
    (fed : Instr.Fed stack.length code)
    (room : Instr.peakFrom (stack ++ below).length code ≤ stackCapacity) :
    run x code (stack ++ below) = (run x code stack).map (· ++ below) := by
  induction code generalizing stack with
  | nil => rfl
  | cons i code ih =>
      obtain ⟨operands, fed⟩ := fed
      rw [Instr.peakFrom_cons] at room
      have rest := Nat.le_trans (Nat.le_max_right _ _) room
      have fits := Nat.le_trans (Instr.le_peakFrom _ code) rest
      rw [run_cons, run_cons, step_frame operands below fits]
      cases stepped : step x stack i with
      | error e => rfl
      | ok next =>
          have height := length_of_step stepped
          rw [← Instr.heightAfter_eq operands, Int.ofNat_inj] at height
          refine ih next (height ▸ fed) ?_
          have same : (next ++ below).length = i.heightAfter (stack ++ below).length := by
            simp only [List.length_append, height, Instr.heightAfter]
            omega
          rwa [same]

end Machine

/-! ## Maps -/

namespace Program

/-- The map around a program computes the product and the difference from the value of the program,
and each of them has to be finite. -/
theorem execute_residualMap {p : Program F} (pushes : Instr.Pushes p.code p.depth) (α : F)
    (room : (p.residualMap α).depth ≤ stackCapacity) (x : S) :
    (p.residualMap α).execute x = (do
      let v ← p.execute x
      let product ← (Machine.finite (Scalar.value x)
        (Scalar.mul F (Scalar.constant α) v)).mapError Halt.undefined
      (Machine.finite (Scalar.value x) (Scalar.sub F x product)).mapError Halt.undefined) := by
  rw [depth_residualMap] at room
  unfold execute
  split
  · have peak : Instr.peakFrom ([] ++ [Scalar.constant α, x] : List S).length p.code ≤
        stackCapacity := by
      rw [pushes.peak]
      exact Nat.le_trans (Nat.le_of_eq (Nat.add_comm 2 _)) room
    have pushed : Machine.run x [.var, .const α] [] = .ok ([] ++ [Scalar.constant α, x]) := rfl
    change (Machine.run x ([.var, .const α] ++ p.code ++ [.binary .mul, .binary .sub]) [] >>= _) = _
    rw [Machine.run_append, Machine.run_append, pushed]
    change (Machine.run x p.code ([] ++ [Scalar.constant α, x]) >>= _ >>= _) = _
    rw [Machine.run_frame [] _ (pushes.fed 0) peak]
    cases ran : Machine.run x p.code [] with
    | error e => rfl
    | ok stack =>
        obtain ⟨v, rfl⟩ := exists_single_of_run pushes ran
        change (Machine.run x [.binary .mul, .binary .sub] [v, Scalar.constant α, x] >>= _) =
          (Machine.finite (Scalar.value x)
            (Scalar.mul F (Scalar.constant α) v)).mapError Halt.undefined >>= _
        rw [Machine.run_cons, Machine.step, Machine.operate]
        cases Machine.finite (Scalar.value x : F) (Scalar.mul F (Scalar.constant α) v) with
        | error e => rfl
        | ok product =>
            change (Machine.run x [.binary .sub] [product, x] >>= _) =
              (Machine.finite (Scalar.value x) (Scalar.sub F x product)).mapError Halt.undefined
            rw [Machine.run_cons, Machine.step, Machine.operate]
            cases Machine.finite (Scalar.value x : F) (Scalar.sub F x product) <;> rfl
  · rfl

end Program

namespace Expression

/-- The map `x - α · f(x)` around a compiled formula or equation, or around a map, as long as the
stack has room for it: it fails as `f` does, and otherwise its value is the difference of `x` and
the product of `α` and the value of `f`, both of which have to be finite. -/
theorem evalScalar_residualMap [Numeral F] {text : String} {e : Expression F}
    (compiled : compile text = .ok e ∨ compileEquation text = .ok e) (αs : List F) (α : F)
    (room : ((e.residualMaps αs).residualMap α).program.depth ≤ 128) (x : S) :
    (∀ err, (e.residualMaps αs).evalScalar x = .error err →
      ((e.residualMaps αs).residualMap α).evalScalar x = .error err) ∧
    ∀ v, (e.residualMaps αs).evalScalar x = .ok v →
      ((e.residualMaps αs).residualMap α).evalScalar x =
        let product := Scalar.mul F (Scalar.constant α) v
        let difference := Scalar.sub F x product
        if Scalar.isFinite F product && Scalar.isFinite F difference then .ok difference
        else .error (.undefined (.nonFinite (Scalar.value x))) := by
  obtain ⟨pushes, -⟩ := compiled.elim pushes_of_compile pushes_of_compile
  have executed := Program.execute_residualMap (pushes_residualMaps pushes αs) α room x
  constructor
  · intro err failed
    refine executed.trans ?_
    rw [← evalScalar, failed]
    rfl
  · intro v value
    refine executed.trans ?_
    rw [← evalScalar, value]
    change ((Machine.finite _ _).mapError Halt.undefined >>= _) = _
    unfold Machine.finite
    dsimp only
    cases Scalar.isFinite F (Scalar.mul F (Scalar.constant α) v) with
    | false => rfl
    | true =>
        cases finite : Scalar.isFinite F (Scalar.sub F x (Scalar.mul F (Scalar.constant α) v)) <;>
          simp [bind, Except.bind, finite]

/-- On doubles, around a map around a square root: a value, its derivative, a failure of the
formula, and a product past the finite range. -/
theorem evalScalar_residualMap_root :
    ∃ e : Expression Float, compile "sqrt(x)" = .ok e ∧
      ((e.residualMaps [0.5]).residualMap 2).program.depth ≤ 128 ∧
      ((e.residualMaps [0.5]).residualMap 2).eval 4 = .ok (-2) ∧
      ((e.residualMaps [0.5]).residualMap 2).evalDual 4 = .ok ⟨-2, -0.75⟩ ∧
      ((e.residualMaps [0.5]).residualMap 2).eval (-1) =
        .error (.undefined (.sqrtNegative (-1) (-1))) ∧
      ((e.residualMaps [0.5]).residualMap 1e308).eval 16 =
        .error (.undefined (.nonFinite 16)) := by
  have compiled : compile "sqrt(x)" =
      .ok (⟨"sqrt(x)", ⟨[.var, .call .sqrt], 1⟩⟩ : Expression Float) := by
    decide +kernel
  have means {S : Type} [Scalar Float S] (α : Float) (x : S) :=
    evalScalar_residualMap (.inl compiled) [0.5] α (show 5 ≤ 128 by decide) x
  refine ⟨_, compiled, by decide, ?_, ?_, ?_, ?_⟩
  · exact ((means 2 4).2 3 (by decide +kernel)).trans (by decide +kernel)
  · exact ((means 2 (Dual.variableAt 4)).2 ⟨3, 0.875⟩ (by decide +kernel)).trans (by decide +kernel)
  · exact (means 2 (-1)).1 _ (by decide +kernel)
  · exact ((means 1e308 16).2 14 (by decide +kernel)).trans (by decide +kernel)

end Expression

end ScalarSolve
