import ScalarSolve.Proofs.Program.Safety

/-!
# One program over two kinds of scalars

Scalars that carry more than a number may be projected to simpler ones.  Where every operation that
a run meets commutes with the projection, the run over the simpler scalars goes along with it, step
by step: the same domain checks fail at the same instructions, and the values are projections of
each other.  The richer run has more components to keep finite, and so it may stop early, but for no
other reason.
-/

namespace ScalarSolve

open Formula

variable {F S T : Type}

namespace Machine

variable {α β α' β' : Type}

/-- A result with which another one agrees up to a projection, unless a value that is not finite
stopped it early. -/
inductive Follows (π : α → β) : Except (Halt F) α → Except (Halt F) β → Prop where
  | value (a : α) : Follows π (.ok a) (.ok (π a))
  | failure (e : Halt F) : Follows π (.error e) (.error e)
  | early (x : F) (r : Except (Halt F) β) : Follows π (.error (.undefined (.nonFinite x))) r

namespace Follows

variable {π : α → β} {π' : α' → β'} {r : Except (Halt F) α} {r' : Except (Halt F) β}

theorem bind {k : α → Except (Halt F) α'} {k' : β → Except (Halt F) β'}
    (h : Follows π r r') (hk : ∀ a, r = .ok a → Follows π' (k a) (k' (π a))) :
    Follows π' (r >>= k) (r' >>= k') := by
  cases h with
  | value a => exact hk a rfl
  | failure e => exact .failure e
  | early x r' => exact .early x _

theorem ok {a : α} (h : Follows π (.ok a) r') : r' = .ok (π a) := by
  cases h with
  | value a => rfl

theorem error {e : Halt F} (h : Follows π (.error e) r')
    (other : ∀ x, e ≠ .undefined (.nonFinite x)) : r' = .error e := by
  cases h with
  | failure e => rfl
  | early x r' => exact absurd rfl (other x)

/-- Where the second result is a failure so is the first. -/
theorem exists_error {e : Halt F} (h : Follows π r (.error e)) : ∃ e', r = .error e' := by
  cases h with
  | failure e => exact ⟨e, rfl⟩
  | early x r' => exact ⟨_, rfl⟩

end Follows

end Machine

/-! ## Projections -/

namespace Scalar

/-- A projection that keeps constants and all that domain checks look at. -/
structure IsProjection [Scalar F S] [Scalar F T] (π : S → T) : Prop where
  constant : ∀ c : F, π (Scalar.constant c) = Scalar.constant c
  value : ∀ a, (Scalar.value (π a) : F) = Scalar.value a
  finite : ∀ a, Scalar.isFinite F a → Scalar.isFinite F (π a)

variable (F) in
/-- An operator without its checks. -/
def operator [Scalar F S] : Operator → S → S → S
  | .add => Scalar.add F
  | .sub => Scalar.sub F
  | .mul => Scalar.mul F
  | .div => Scalar.div F
  | .pow => Scalar.pow F

variable (F) in
/-- A function without its checks. -/
def elementary [Scalar F S] : Elementary → S → S
  | .sin => Scalar.sin F
  | .cos => Scalar.cos F
  | .tan => Scalar.tan F
  | .exp => Scalar.exp F
  | .log => Scalar.log F
  | .sqrt => Scalar.sqrt F
  | .abs => Scalar.abs F

end Scalar

/-- The operation of an instruction commutes with a projection at the operands that it finds on the
stack. -/
def Instr.Commutes [Scalar F S] [Scalar F T] (π : S → T) : Instr F → List S → Prop
  | .binary op, b :: a :: _ =>
    π (Scalar.operator F op a b) = Scalar.operator F op (π a) (π b)
  | .powConst n, a :: _ => π (Scalar.powConst a n) = Scalar.powConst (π a) n
  | .neg, a :: _ => π (Scalar.neg F a) = Scalar.neg F (π a)
  | .call f, a :: _ => π (Scalar.elementary F f a) = Scalar.elementary F f (π a)
  | _, _ => True

namespace Machine

namespace Follows

theorem push (π : S → T) (v : S) (stack : List S) :
    Follows (F := F) (List.map π) (push v stack) (push (π v) (stack.map π)) := by
  unfold Machine.push
  rw [List.length_map]
  split
  · exact .value (v :: stack)
  · exact .failure _

variable [Scalar F S] [Scalar F T] {π : S → T} (proj : Scalar.IsProjection (F := F) π)

include proj

theorem leave_finite (rest : List S) (x : F) (v : S) :
    Follows (List.map π) (leave rest (finite x v)) (leave (rest.map π) (finite x (π v))) := by
  unfold Machine.finite
  split
  · next h =>
      rw [if_pos (proj.finite v h)]
      exact .value (v :: rest)
  · exact .early x _

variable [Arith F]

theorem leave_operate (rest : List S) (x : F) (op : Operator) (a b : S)
    (commutes : π (Scalar.operator F op a b) = Scalar.operator F op (π a) (π b)) :
    Follows (List.map π) (leave rest (operate x op a b))
      (leave (rest.map π) (operate x op (π a) (π b))) := by
  have computed := leave_finite proj rest x (Scalar.operator F op a b)
  rw [commutes] at computed
  cases op with
  | add => exact computed
  | sub => exact computed
  | mul => exact computed
  | div =>
      rw [operate, operate, proj.value]
      split
      · exact .failure _
      · exact computed
  | pow => exact computed

theorem leave_apply (rest : List S) (x : F) (f : Elementary) (a : S)
    (commutes : π (Scalar.elementary F f a) = Scalar.elementary F f (π a)) :
    Follows (List.map π) (leave rest (apply x f a)) (leave (rest.map π) (apply x f (π a))) := by
  have computed := leave_finite proj rest x (Scalar.elementary F f a)
  rw [commutes] at computed
  cases f with
  | sin => exact computed
  | cos => exact computed
  | tan => exact computed
  | exp => exact computed
  | log | sqrt =>
      rw [apply, apply, proj.value]
      split
      · exact .failure _
      · exact computed
  | abs => exact computed

/-- One instruction whose operation commutes with the projection. -/
theorem step (x : S) (stack : List S) (i : Instr F) (commutes : i.Commutes π stack) :
    Follows (List.map π) (step x stack i) (step (π x) (stack.map π) i) := by
  have point : (Scalar.value (π x) : F) = Scalar.value x := proj.value x
  cases i with
  | const c =>
      rw [Machine.step, Machine.step, ← proj.constant]
      exact push π _ stack
  | var => exact push π x stack
  | binary op =>
      match stack, commutes with
      | b :: a :: rest, commutes =>
          rw [List.map_cons, List.map_cons, Machine.step, Machine.step, point]
          exact leave_operate proj rest _ op a b commutes
      | [], _ | [_], _ => exact .failure _
  | powConst n =>
      match stack, commutes with
      | a :: rest, commutes =>
          rw [List.map_cons, Machine.step, Machine.step, point, ← commutes]
          exact leave_finite proj rest _ _
      | [], _ => exact .failure _
  | neg =>
      match stack, commutes with
      | a :: rest, commutes =>
          rw [List.map_cons, Machine.step, Machine.step, point, ← commutes]
          exact leave_finite proj rest _ _
      | [], _ => exact .failure _
  | call f =>
      match stack, commutes with
      | a :: rest, commutes =>
          rw [List.map_cons, Machine.step, Machine.step, point]
          exact leave_apply proj rest _ f a commutes
      | [], _ => exact .failure _

end Follows

variable [Arith F] [Scalar F S] [Scalar F T] {π : S → T}

/-- A property of every instruction of some code, with the stack on which the run meets it. -/
def Along (P : Instr F → List S → Prop) (x : S) : List (Instr F) → List S → Prop
  | [], _ => True
  | i :: code, stack => P i stack ∧ ∀ next, step x stack i = .ok next → Along P x code next

theorem along_of_forall {P : Instr F → List S → Prop} {x : S} {code : List (Instr F)}
    (h : ∀ i ∈ code, ∀ stack, P i stack) (stack : List S) : Along P x code stack := by
  induction code generalizing stack with
  | nil => trivial
  | cons i code ih =>
      obtain ⟨here, rest⟩ := List.forall_mem_cons.mp h
      exact ⟨here stack, fun next _ ↦ ih rest next⟩

theorem Along.imp {P Q : Instr F → List S → Prop} (h : ∀ i stack, P i stack → Q i stack) {x : S}
    {code : List (Instr F)} {stack : List S} (along : Along P x code stack) :
    Along Q x code stack := by
  induction code generalizing stack with
  | nil => trivial
  | cons i code ih => exact ⟨h i stack along.1, fun next stepped ↦ ih (along.2 next stepped)⟩

instance decidableAlong {P : Instr F → List S → Prop} [∀ i stack, Decidable (P i stack)] (x : S) :
    (code : List (Instr F)) → (stack : List S) → Decidable (Along P x code stack)
  | [], _ => isTrue trivial
  | i :: code, stack =>
    have : Decidable (∀ next, step x stack i = .ok next → Along P x code next) :=
      match step x stack i with
      | .ok next =>
        have := decidableAlong (P := P) x code next
        decidable_of_iff (Along P x code next)
          ⟨fun h _ eq ↦ Except.ok.inj eq ▸ h, fun h ↦ h next rfl⟩
      | .error _ => isTrue fun _ eq ↦ nomatch eq
    inferInstanceAs (Decidable (_ ∧ _))

/-- A whole run.  The operations have to commute on the stacks that the simpler run goes through. -/
theorem Follows.run (proj : Scalar.IsProjection (F := F) π) {x : S} {code : List (Instr F)}
    (stack : List S)
    (commutes : Along (fun i s' ↦ ∀ s, s' = s.map π → i.Commutes π s) (π x) code (stack.map π)) :
    Follows (List.map π) (run x code stack) (run (π x) code (stack.map π)) := by
  induction code generalizing stack with
  | nil => exact .value stack
  | cons i code ih =>
      obtain ⟨here, rest⟩ := commutes
      have stepped := step proj x stack i (here stack rfl)
      rw [run_cons, run_cons]
      refine stepped.bind fun next ok ↦ ih next (rest _ ?_)
      exact (ok ▸ stepped).ok

end Machine

/-- An execution is followed by that at the projected point. -/
theorem Program.follows_execute [Arith F] [Scalar F S] [Scalar F T] {π : S → T}
    (proj : Scalar.IsProjection (F := F) π) (p : Program F) (x : S)
    (commutes : Machine.Along (fun i s' ↦ ∀ s, s' = s.map π → i.Commutes π s) (π x) p.code []) :
    Machine.Follows π (p.execute x) (p.execute (π x)) := by
  unfold execute
  split
  · next finite =>
      rw [if_pos (proj.finite x finite)]
      refine (Machine.Follows.run proj [] commutes).bind fun stack _ ↦ ?_
      have bottom : ((stack.map π).getLast?.getD (Scalar.constant (Arith.zero : F))) =
          π (stack.getLast?.getD (Scalar.constant (Arith.zero : F))) := by
        rw [List.getLast?_map, ← proj.constant, Option.getD_map]
      rw [bottom]
      exact .value _
  · exact .early _ _

end ScalarSolve
