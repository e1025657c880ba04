import ScalarSolve.Proofs.Program.Heights

/-!
# The machine within its stack

Stacks of the machine have the heights that the code says, whatever the scalars are.  Code whose
peak does not fit into the stack never gets to its end.
-/

namespace ScalarSolve

open Formula

namespace Machine

variable {F S : Type}

theorem eq_cons_of_push {v : S} {stack stack' : List S}
    (h : (push v stack : Except (Halt F) (List S)) = .ok stack') : stack' = v :: stack := by
  unfold push at h
  split at h
  · exact (Except.ok.inj h).symm
  · cases h

theorem lt_of_push {v : S} {stack stack' : List S}
    (h : (push v stack : Except (Halt F) (List S)) = .ok stack') :
    stack.length < stackCapacity := by
  unfold push at h
  split at h
  · next room => exact room
  · cases h

/-- A result is left where the operands have been. -/
theorem length_of_leave {r : Except (EvalError F) S} {rest stack' : List S}
    (h : leave rest r = .ok stack') : stack'.length = rest.length + 1 := by
  cases r with
  | ok v =>
      cases h
      rfl
  | error e => cases h

variable [Arith F] [Scalar F S]

/-! ## Steps -/

/-- A step that succeeds changes the height of the stack by the effect of the instruction. -/
theorem length_of_step {x : S} {stack stack' : List S} {i : Instr F}
    (h : step x stack i = .ok stack') : (stack'.length : Int) = stack.length + i.effect := by
  unfold Instr.effect Instr.operands
  cases i with
  | const c =>
      rw [eq_cons_of_push h]
      simp
  | var =>
      rw [eq_cons_of_push h]
      simp
  | binary op =>
      match stack, h with
      | b :: a :: rest, h =>
          rw [length_of_leave h]
          simp only [List.length_cons]
          omega
  | powConst n =>
      match stack, h with
      | a :: rest, h => simp [length_of_leave h]
  | neg =>
      match stack, h with
      | a :: rest, h => simp [length_of_leave h]
  | call f =>
      match stack, h with
      | a :: rest, h => simp [length_of_leave h]

/-- A step that succeeds stays within the stack. -/
theorem room_of_step {x : S} {stack stack' : List S} {i : Instr F}
    (fits : stack.length ≤ stackCapacity) (h : step x stack i = .ok stack') :
    stack'.length ≤ stackCapacity := by
  have length := length_of_step h
  cases i with
  | const c =>
      rw [eq_cons_of_push h]
      exact lt_of_push h
  | var =>
      rw [eq_cons_of_push h]
      exact lt_of_push h
  | binary op | powConst n | neg | call f =>
      simp only [Instr.effect, Instr.operands] at length
      omega

/-! ## Runs -/

@[simp] theorem run_append (x : S) (c d : List (Instr F)) (stack : List S) :
    run x (c ++ d) stack = run x c stack >>= run x d := List.foldlM_append

/-- The machine's stack has the height that the effects of the code add up to. -/
theorem length_of_run {x : S} {code : List (Instr F)} {stack stack' : List S}
    (h : run x code stack = .ok stack') :
    (stack'.length : Int) = stack.length + Instr.height code := by
  induction code generalizing stack with
  | nil =>
      cases h
      simp
  | cons i code ih =>
      rw [run_cons] at h
      cases hs : step x stack i with
      | error e =>
          rw [hs] at h
          cases h
      | ok next =>
          rw [hs] at h
          rw [ih h, length_of_step hs, Instr.height_cons]
          omega

/-- Fed code that runs to its end has its peak within the stack. -/
theorem peak_le_of_run {x : S} {code : List (Instr F)} {stack stack' : List S}
    (fed : Instr.Fed stack.length code) (fits : stack.length ≤ stackCapacity)
    (h : run x code stack = .ok stack') : Instr.peakFrom stack.length code ≤ stackCapacity := by
  induction code generalizing stack with
  | nil => exact fits
  | cons i code ih =>
      obtain ⟨operands, fed⟩ := fed
      rw [run_cons] at h
      cases hs : step x stack i with
      | error e =>
          rw [hs] at h
          cases h
      | ok next =>
          rw [hs] at h
          have height : next.length = i.heightAfter stack.length := by
            have changed := length_of_step hs
            rw [← Instr.heightAfter_eq operands] at changed
            exact Int.ofNat_inj.mp changed
          rw [← height] at fed
          rw [Instr.peakFrom_cons, ← height]
          exact Nat.max_le.mpr ⟨fits, ih fed (room_of_step fits hs) h⟩

end Machine

namespace Program

variable {F S : Type}

/-- A program whose code leaves one value fits if its depth does. -/
theorem fits_of_pushes {p : Program F} (pushes : Instr.Pushes p.code p.depth)
    (room : p.depth ≤ stackCapacity) : p.Fits where
  fed := pushes.fed 0
  room := by
    rw [pushes.peak]
    omega

variable [Arith F] [Scalar F S]

/-- Code that leaves one more value leaves a single one on an empty stack. -/
theorem exists_single_of_run {p : Program F} (pushes : Instr.Pushes p.code p.depth) {x : S}
    {stack : List S} (h : Machine.run x p.code [] = .ok stack) : ∃ v, stack = [v] := by
  have length := Machine.length_of_run h
  have one := Instr.heightFrom_eq (pushes.fed 0)
  rw [pushes.height] at one
  rw [List.length_nil] at length
  exact List.length_eq_one_iff.mp (by omega)

/-- A program whose code leaves one value, and whose depth fits, executes without a fault. -/
theorem execute_faultFree {p : Program F} (pushes : Instr.Pushes p.code p.depth)
    (room : p.depth ≤ stackCapacity) (x : S) : Machine.FaultFree (p.execute x) :=
  (fits_of_pushes pushes room).execute_faultFree x

/-- A program that gives a value has had room for its depth. -/
theorem depth_le_of_execute {p : Program F} (pushes : Instr.Pushes p.code p.depth) {x v : S}
    (h : p.execute x = .ok v) : p.depth ≤ stackCapacity := by
  unfold execute at h
  split at h
  · cases ran : Machine.run x p.code [] with
    | error e =>
        rw [ran] at h
        cases h
    | ok stack =>
        have fed : Instr.Fed ([] : List S).length p.code := pushes.fed 0
        have peak := Machine.peak_le_of_run fed (Nat.zero_le _) ran
        rw [pushes.peak, List.length_nil] at peak
        omega
  · cases h

end Program

end ScalarSolve
