import ScalarSolve.Program.Basic

/-!
# Programs that fit

Whether an evaluation meets an end of the stack can be told from the code.  Code is *fed* when each
of its instructions finds its operands, and fed code whose peak does not exceed the capacity gives a
value or meets a point where the formula is undefined, whatever the scalars are.
-/

namespace ScalarSolve

open Formula

namespace Instr

variable {F : Type}

/-- Every instruction finds its operands when the code starts on a stack of height `h`. -/
def Fed (h : Nat) : List (Instr F) → Prop
  | [] => True
  | i :: code => i.operands ≤ h ∧ Fed (i.heightAfter h) code

instance decidableFed : (h : Nat) → (code : List (Instr F)) → Decidable (Fed h code)
  | _, [] => .isTrue trivial
  | h, i :: code => @instDecidableAnd _ _ _ (decidableFed (i.heightAfter h) code)

@[simp] theorem fed_nil (h : Nat) : Fed h ([] : List (Instr F)) := trivial

@[simp] theorem fed_cons {h : Nat} {i : Instr F} {code : List (Instr F)} :
    Fed h (i :: code) ↔ i.operands ≤ h ∧ Fed (i.heightAfter h) code := Iff.rfl

@[simp] theorem peakFrom_nil (h : Nat) : peakFrom h ([] : List (Instr F)) = h := rfl

@[simp] theorem peakFrom_cons (h : Nat) (i : Instr F) (code : List (Instr F)) :
    peakFrom h (i :: code) = max h (peakFrom (i.heightAfter h) code) := rfl

theorem le_peakFrom (h : Nat) (code : List (Instr F)) : h ≤ peakFrom h code := by
  cases code with
  | nil => exact Nat.le_refl h
  | cons i code => exact Nat.le_max_left h _

end Instr

namespace Machine

variable {F S α β : Type}

/-- A result that is no fault of the stack. -/
def FaultFree (r : Except (Halt F) α) : Prop := ∀ why, r ≠ .error (.fault why)

namespace FaultFree

theorem ok (a : α) : FaultFree (.ok a : Except (Halt F) α) := by
  intro why h
  cases h

theorem undefined (e : EvalError F) : FaultFree (.error (.undefined e) : Except (Halt F) α) := by
  intro why h
  cases h

theorem bind {r : Except (Halt F) α} {k : α → Except (Halt F) β} (h : FaultFree r)
    (hk : ∀ a, r = .ok a → FaultFree (k a)) : FaultFree (r >>= k) := by
  cases r with
  | ok a => exact hk a rfl
  | error e =>
      intro why eq
      cases eq
      exact h why rfl

end FaultFree

theorem push_of_room {v : S} {stack : List S} (room : stack.length + 1 ≤ stackCapacity) :
    (push v stack : Except (Halt F) (List S)) = .ok (v :: stack) := if_pos room

variable [Arith F] [Scalar F S]

@[simp] theorem run_nil (x : S) (stack : List S) : run x ([] : List (Instr F)) stack = .ok stack :=
  rfl

@[simp] theorem run_cons (x : S) (i : Instr F) (code : List (Instr F)) (stack : List S) :
    run x (i :: code) stack = step x stack i >>= run x code := rfl

/-- With its operands there and room for its value, an instruction leaves a value in place of the
operands, or meets a point where it is undefined. -/
theorem step_cases {x : S} {stack : List S} {i : Instr F} (fed : i.operands ≤ stack.length)
    (room : i.heightAfter stack.length ≤ stackCapacity) :
    (∃ v, step x stack i = .ok (v :: stack.drop i.operands)) ∨
      ∃ e, step x stack i = .error (.undefined e) := by
  have computed (r : Except (EvalError F) S) (rest : List S) :
      (∃ v, leave rest r = .ok (v :: rest)) ∨ ∃ e, leave rest r = .error (.undefined e) := by
    cases r with
    | ok v => exact .inl ⟨v, rfl⟩
    | error e => exact .inr ⟨e, rfl⟩
  cases i with
  | const c => exact .inl ⟨_, push_of_room room⟩
  | var => exact .inl ⟨_, push_of_room room⟩
  | binary op =>
      match stack, fed with
      | b :: a :: rest, _ => exact computed _ rest
  | powConst n =>
      match stack, fed with
      | a :: rest, _ => exact computed _ rest
  | neg =>
      match stack, fed with
      | a :: rest, _ => exact computed _ rest
  | call f =>
      match stack, fed with
      | a :: rest, _ => exact computed _ rest

/-- Fed code whose peak does not exceed the capacity never meets an end of the stack. -/
theorem run_faultFree {x : S} {code : List (Instr F)} (stack : List S)
    (fed : Instr.Fed stack.length code)
    (room : Instr.peakFrom stack.length code ≤ stackCapacity) : FaultFree (run x code stack) := by
  induction code generalizing stack with
  | nil => exact .ok stack
  | cons i code ih =>
      obtain ⟨operands, fed⟩ := fed
      rw [Instr.peakFrom_cons] at room
      have rest := Nat.le_trans (Nat.le_max_right _ _) room
      have fits := Nat.le_trans (Instr.le_peakFrom _ code) rest
      rw [run_cons]
      rcases step_cases (x := x) operands fits with ⟨v, hs⟩ | ⟨e, hs⟩
      · have height : (v :: stack.drop i.operands).length = i.heightAfter stack.length := by
          simp [Instr.heightAfter]
        rw [hs]
        exact ih _ (height ▸ fed) (height ▸ rest)
      · rw [hs]
        exact .undefined e

end Machine

namespace Program

variable {F S : Type}

/-- The code is fed, and the stack has room for its peak. -/
structure Fits (p : Program F) : Prop where
  fed : Instr.Fed 0 p.code
  room : Instr.peakFrom 0 p.code ≤ stackCapacity

instance decidableFits (p : Program F) : Decidable p.Fits :=
  decidable_of_iff (Instr.Fed 0 p.code ∧ Instr.peakFrom 0 p.code ≤ stackCapacity)
    ⟨fun ⟨fed, room⟩ ↦ ⟨fed, room⟩, fun fits ↦ ⟨fits.fed, fits.room⟩⟩

/-- A program that fits executes without a fault of the stack. -/
theorem Fits.execute_faultFree [Arith F] [Scalar F S] {p : Program F} (fits : p.Fits) (x : S) :
    Machine.FaultFree (p.execute x) := by
  unfold execute
  split
  · exact (Machine.run_faultFree [] fits.fed fits.room).bind fun stack _ ↦ .ok _
  · exact .undefined _

/-- What a program that fits has at a point: a value, or the reason why there is none. -/
def Fits.value [Arith F] [Scalar F S] {p : Program F} (fits : p.Fits) (x : S) :
    Except (EvalError F) S :=
  match h : p.execute x with
  | .ok v => .ok v
  | .error (.undefined e) => .error e
  | .error (.fault why) => absurd h (fits.execute_faultFree x why)

theorem Fits.execute_eq [Arith F] [Scalar F S] {p : Program F} (fits : p.Fits) (x : S) :
    p.execute x = (fits.value x).mapError .undefined := by
  unfold value
  split
  · next v h => exact h
  · next e h => exact h
  · next why h => exact absurd h (fits.execute_faultFree x why)

theorem Fits.value_of_not_isFinite [Arith F] [Scalar F S] {p : Program F} (fits : p.Fits) {x : S}
    (h : ¬ Scalar.isFinite F x) : fits.value x = .error (.nonFinite (Scalar.value x)) := by
  have executed : p.execute x = .error (.undefined (.nonFinite (Scalar.value x))) := if_neg h
  rw [fits.execute_eq] at executed
  cases value : fits.value x with
  | ok v =>
      rw [value] at executed
      cases executed
  | error e =>
      rw [value] at executed
      cases executed
      rfl

/-- Whether the map `x - α · p` fits does not depend on `α`. -/
theorem Fits.residualMap_of_residualMap {p : Program F} {α : F} (fits : (p.residualMap α).Fits)
    (β : F) : (p.residualMap β).Fits := ⟨fits.fed, fits.room⟩

/-- The end of the stack at which a program that does not fit is stopped. -/
def obstacle (p : Program F) : StackFault := if Instr.Fed 0 p.code then .full else .empty

end Program

end ScalarSolve
