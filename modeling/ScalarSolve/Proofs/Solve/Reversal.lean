import ScalarSolve.Proofs.Solve.SignChange

/-!
# Bisection from the other end

A search for a root between two ends may be given the ends in either order.  The two searches halve
the same enclosure, and so they go through the same midpoints and end in the same way; but each of
them starts its trace from its own first end.  Their logs are *twins*: they differ in the first
point and in nothing that comes of later ones.
-/

namespace ScalarSolve

open Formula

variable {F : Type} {a b : F}

/-! ## Twins -/

/-- Two logs with the same points, except that one starts from `a` and the other from `b`. -/
structure Iterates.Twins (a b : F) (xs xs' : Iterates F) : Prop where
  points : ∃ ts, xs.trace = a :: ts ∧ xs'.trace = b :: ts
  delta : 2 ≤ xs.count → xs.delta = xs'.delta

/-- Two runs with the same points, except that one starts from `a` and the other from `b`. -/
structure Run.Twins (a b : F) (r r' : Run F) : Prop where
  termination : r.termination = r'.termination
  points : ∃ ts, r.trace = a :: ts ∧ r'.trace = b :: ts
  iterations : r.iterations = r'.iterations
  root : 1 ≤ r.iterations → r.root = r'.root
  residual : 1 ≤ r.iterations → r.residual = r'.residual
  delta : 2 ≤ r.iterations → r.delta = r'.delta

namespace Iterates

variable {xs xs' : Iterates F}

namespace Twins

theorem count_eq (h : xs.Twins a b xs') : xs.count = xs'.count := by
  obtain ⟨ts, trace, trace'⟩ := h.points
  have length := congrArg List.length trace
  have length' := congrArg List.length trace'
  rw [length_trace, List.length_cons] at length length'
  omega

theorem last_eq (h : xs.Twins a b xs') (moved : 1 ≤ xs.count) : xs.last = xs'.last := by
  have last := getElem?_last xs
  have last' := getElem?_last xs'
  obtain ⟨ts, trace, trace'⟩ := h.points
  obtain ⟨i, count⟩ : ∃ i, xs.count = i + 1 := Nat.exists_eq_succ_of_ne_zero (by omega)
  rw [trace, count, List.getElem?_cons_succ] at last
  rw [trace', ← h.count_eq, count, List.getElem?_cons_succ] at last'
  exact Option.some.inj (last.symm.trans last')

/-- Twins that end in the same way, with the same residual unless it is that of the first point. -/
theorem finish (h : xs.Twins a b xs') (how : Termination F) {y y' : F}
    (residual : 1 ≤ xs.count → y = y') : (xs.finish how y).Twins a b (xs'.finish how y') where
  termination := rfl
  points := h.points
  iterations := h.count_eq
  root := h.last_eq
  residual := residual
  delta := h.delta

variable [Arith F]

theorem start (a b : F) : (Iterates.start a).Twins a b (Iterates.start b) where
  points := ⟨[], rfl, rfl⟩
  delta moves := absurd moves (Nat.not_succ_le_zero 1)

theorem accept (h : xs.Twins a b xs') (z : F) : (xs.accept z).Twins a b (xs'.accept z) where
  points := by
    obtain ⟨ts, trace, trace'⟩ := h.points
    refine ⟨ts ++ [z], ?_, ?_⟩
    · rw [trace_accept, trace, List.cons_append]
    · rw [trace_accept, trace', List.cons_append]
  delta moves := by
    rw [delta_accept, delta_accept, h.last_eq (Nat.le_of_succ_le_succ moves)]

end Twins

end Iterates

/-! ## Searches -/

namespace Bisection

variable [Arith F] {l : Limits F} {f : PartialMap F}

theorem twins_iterate {left : Nat} {e : Enclosure F} {xs xs' : Iterates F}
    (twins : xs.Twins a b xs') : (iterate l f left e xs).Twins a b (iterate l f left e xs') := by
  induction left generalizing e xs xs' with
  | zero => exact twins.finish _ fun moved ↦ by rw [twins.last_eq moved]
  | succ left ih =>
      unfold iterate
      cases f e.mid with
      | error err => exact twins.finish _ fun _ ↦ rfl
      | ok y =>
          dsimp only
          split
          · exact (twins.accept e.mid).finish _ fun _ ↦ rfl
          · exact ih (twins.accept e.mid)

theorem between_comm {ya yb : F} (before : Arith.lt a b) (not_behind : ¬ Arith.lt b a) :
    Enclosure.between b a yb ya = Enclosure.between a b ya yb := by
  unfold Enclosure.between
  rw [if_pos before, if_neg not_behind]

/-- Between values that are opposed, both ways of asking for their signs, the order of the ends
matters for the first point only. -/
theorem twins_outcome {ya yb : F} (before : Arith.lt a b) (not_behind : ¬ Arith.lt b a)
    (valueA : f a = .ok ya) (valueB : f b = .ok yb) (opposed : Opposed ya yb)
    (opposed' : Opposed yb ya) : (outcome l f a b).Twins a b (outcome l f b a) := by
  rw [outcome_of_opposed valueA valueB opposed, outcome_of_opposed valueB valueA opposed',
    between_comm before not_behind]
  exact twins_iterate (Iterates.Twins.start a b)

/-- Where the function has values of different sign at two doubles, the search from the greater one
has a run if that from the lesser one has, and the two are twins with the same message.  The order
of the ends needs one fact of arithmetic, that of two doubles at most one is less than the other. -/
theorem findRoot_reversed {l : Limits Float} (valid : l.Valid) {f : PartialMap Float}
    {a b ya yb : Float} (before : Arith.lt a b) (valueA : f a = .ok ya) (valueB : f b = .ok yb)
    (opposed : Opposed ya yb) :
    (∀ r, findRoot l f a b = .ok r →
        ∃ r', findRoot l f b a = .ok r' ∧ r.Twins a b r' ∧ r.message? = r'.message?) ∧
      (Arith.isFinite a → Arith.isFinite b → ∃ r, findRoot l f a b = .ok r) := by
  refine ⟨?_, fun finiteA finiteB ↦ ⟨_, findRoot_eq_ok.mpr ⟨valid, finiteA, finiteB, rfl⟩⟩⟩
  intro r ran
  obtain ⟨-, finiteA, finiteB, rfl⟩ := findRoot_eq_ok.mp ran
  have twins : (outcome l f a b).Twins a b (outcome l f b a) :=
    twins_outcome before (Double.not_lt_of_lt before) valueA valueB opposed opposed.symm
  exact ⟨_, findRoot_eq_ok.mpr ⟨valid, finiteB, finiteA, rfl⟩, twins,
    congrArg Termination.message? twins.termination⟩

/-- On doubles, the search for a quarter from zero and from one. -/
theorem findRoot_reversed_quarter :
    let f : PartialMap Float := fun x ↦ .ok (4 * x - 1)
    Limits.Valid (⟨0.125, 9⟩ : Limits Float) ∧ Arith.lt (0 : Float) 1 ∧
      ∃ r r', findRoot ⟨0.125, 9⟩ f 0 1 = .ok r ∧ findRoot ⟨0.125, 9⟩ f 1 0 = .ok r' ∧
        r.trace = [0, 0.5, 0.25] ∧ r'.trace = [1, 0.5, 0.25] ∧ r.root = r'.root ∧
          r.delta = r'.delta := by
  intro f
  have valid : Limits.Valid (⟨0.125, 9⟩ : Limits Float) :=
    ⟨by decide +kernel, by decide, by decide⟩
  have before : Arith.lt (0 : Float) 1 := by decide +kernel
  have ran : findRoot ⟨0.125, 9⟩ f 0 1 = .ok ⟨0.25, 0, 0.25, 2, [0, 0.5, 0.25], .converged⟩ := by
    decide +kernel
  have ran' : findRoot ⟨0.125, 9⟩ f 1 0 = .ok ⟨0.25, 0, 0.25, 2, [1, 0.5, 0.25], .converged⟩ := by
    decide +kernel
  have valueA : f 0 = .ok (-1) := by decide +kernel
  have valueB : f 1 = .ok 3 := by decide +kernel
  obtain ⟨reversed, -⟩ := findRoot_reversed valid before valueA valueB
    ⟨by decide +kernel, by decide +kernel, by decide +kernel⟩
  obtain ⟨r', found, twins, -⟩ := reversed _ ran
  obtain rfl := Except.ok.inj (ran'.symm.trans found)
  exact ⟨valid, before, _, _, ran, ran', rfl, rfl, twins.root (by decide), twins.delta (by decide)⟩

end Bisection

end ScalarSolve
