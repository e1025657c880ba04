import Mathlib
import ScalarSolve.Region.Suggestion

/-!
# The candidates of a search

A search tries quotients of slopes at points around its first one, and takes the first quotient that
will do.  The order is one of numbers: each point has a number, each quotient has twice the number
of its point or one more, and the candidates are those quotients that exist, are finite and have not
too great a number.
-/

namespace ScalarSolve.Suggestion

variable {F : Type} [Arith F]

/-- The points at which slopes are taken: the first one, then one above and one below it at each of
the distances `r`, `2r`, `4r` and so on. -/
def slopePoint (x r : F) : ℕ → F
  | 0 => x
  | k + 1 =>
    let offset := r * Arith.ofDecimal (2 ^ (k / 2)) 0
    if k % 2 = 0 then x + offset else x - offset

/-- A slope is a divisor of one first, then of a half. -/
def scale (k : ℕ) : F := if k % 2 = 0 then Arith.one else Arith.half

/-- The candidate with a number: a finite quotient by a slope that is not zero. -/
structure Candidate (effort : Effort F) (f : Curve F) (x : F) (k : ℕ) (α : F) : Prop where
  early : k < 2 * (2 * effort.slopeOffsets + 1)
  quotient : ∃ d, slope f (slopePoint x (effort.radius x) (k / 2)) = .ok d ∧ ¬ Arith.isZero d ∧
    α = scale k / d
  finite : Arith.isFinite α

theorem slopePoints_eq (x r : F) (offsets : ℕ) :
    slopePoints x r offsets = (List.range (2 * offsets + 1)).map (slopePoint x r) := by
  induction offsets with
  | zero => rfl
  | succ n ih =>
      have above : slopePoint x r (2 * n + 1) = x + r * Arith.ofDecimal (1 <<< n) 0 := by
        rw [slopePoint, if_pos (by omega), Nat.mul_div_cancel_left n Nat.two_pos, Nat.one_shiftLeft]
      have below : slopePoint x r (2 * n + 2) = x - r * Arith.ofDecimal (1 <<< n) 0 := by
        rw [slopePoint, if_neg (by omega), show (2 * n + 1) / 2 = n by omega, Nat.one_shiftLeft]
      rw [Nat.mul_succ, List.range_succ, List.range_succ, List.map_append, List.map_append, ← ih,
        List.map_singleton, List.map_singleton, above, below, slopePoints, slopePoints,
        List.range_succ, List.flatMap_append, List.flatMap_singleton, List.append_assoc]
      rfl

/-- The slope at a point if it has one that is not zero. -/
def slope? (f : Curve F) (x : F) : Option F :=
  match slope f x with
  | .ok d => if Arith.isZero d then none else some d
  | .error _ => none

theorem slope?_eq_some {f : Curve F} {x d : F} :
    slope? f x = some d ↔ slope f x = .ok d ∧ ¬ Arith.isZero d := by
  unfold slope?
  cases slope f x with
  | error e => simp
  | ok d' =>
      dsimp only
      split
      · next zero => simpa using fun eq ↦ eq ▸ zero
      · next nonzero => simpa using fun eq ↦ Bool.eq_false_of_not_eq_true (eq ▸ nonzero)

/-- The candidate with a number if there is one, for any points at which slopes are taken. -/
def quotient? (f : Curve F) (point : ℕ → F) (k : ℕ) : Option F :=
  (slope? f (point (k / 2))).bind fun d ↦ Option.guard Arith.isFinite (scale k / d)

/-- The candidates of one point. -/
theorem candidates_slopes_singleton (f : Curve F) (point : ℕ → F) (n : ℕ) :
    candidates (slopes f [point n]) = [2 * n, 2 * n + 1].filterMap (quotient? f point) := by
  have first : quotient? f point (2 * n) =
      (slope? f (point n)).bind fun d ↦ Option.guard Arith.isFinite (Arith.one / d) := by
    rw [quotient?, Nat.mul_div_cancel_left n Nat.two_pos, scale, if_pos (by omega)]
  have second : quotient? f point (2 * n + 1) =
      (slope? f (point n)).bind fun d ↦ Option.guard Arith.isFinite (Arith.half / d) := by
    rw [quotient?, show (2 * n + 1) / 2 = n by omega, scale, if_neg (by omega)]
  have found : slopes f [point n] = (slope? f (point n)).toList := by
    change [point n].filterMap (slope? f) = _
    cases slope : slope? f (point n) <;> simp [slope]
  rw [found, List.filterMap_cons, List.filterMap_cons, first, second]
  cases slope? f (point n) with
  | none => rfl
  | some d =>
      simp only [candidates, Option.toList_some, List.flatMap_singleton, Option.bind_some,
        Option.guard, List.filter_cons, List.filter_nil, List.filterMap_nil]
      cases Arith.isFinite (Arith.one / d) <;> cases Arith.isFinite (Arith.half / d) <;> rfl

/-- The candidates of points in their order. -/
theorem candidates_slopes (f : Curve F) (point : ℕ → F) (n : ℕ) :
    candidates (slopes f ((List.range n).map point)) =
      (List.range (2 * n)).filterMap (quotient? f point) := by
  induction n with
  | zero => rfl
  | succ n ih =>
      have split : List.range (2 * (n + 1)) = List.range (2 * n) ++ [2 * n, 2 * n + 1] := by
        rw [Nat.mul_succ, List.range_succ, List.range_succ, List.append_assoc]
        rfl
      have apart (xs ys : List F) :
          candidates (slopes f (xs ++ ys)) =
            candidates (slopes f xs) ++ candidates (slopes f ys) := by
        rw [slopes, List.filterMap_append, candidates, List.flatMap_append]
        rfl
      rw [split, List.filterMap_append, List.range_succ, List.map_append, List.map_singleton,
        apart, ih, candidates_slopes_singleton]

variable {effort : Effort F} {f : Curve F} {x : F}

/-- The candidates of a search are the quotients with numbers below a bound. -/
theorem candidates_eq (effort : Effort F) (f : Curve F) (x : F) :
    candidates (slopes f (slopePoints x (effort.radius x) effort.slopeOffsets)) =
      (List.range (2 * (2 * effort.slopeOffsets + 1))).filterMap
        (quotient? f (slopePoint x (effort.radius x))) := by
  rw [slopePoints_eq, candidates_slopes]

theorem candidate_iff {k : ℕ} {α : F} :
    Candidate effort f x k α ↔ k < 2 * (2 * effort.slopeOffsets + 1) ∧
      quotient? f (slopePoint x (effort.radius x)) k = some α := by
  rw [quotient?, Option.bind_eq_some_iff]
  simp only [slope?_eq_some, Option.guard_eq_some_iff]
  constructor
  · rintro ⟨early, ⟨d, slope, nonzero, rfl⟩, finite⟩
    exact ⟨early, d, ⟨slope, nonzero⟩, rfl, finite⟩
  · rintro ⟨early, d, ⟨slope, nonzero⟩, rfl, finite⟩
    exact ⟨early, ⟨d, slope, nonzero, rfl⟩, finite⟩

/-! ## The first one that will do -/

theorem findSome?_filterMap_range {α β : Type} {q : ℕ → Option α} {g : α → Option β} {n : ℕ}
    {b : β} (found : ((List.range n).filterMap q).findSome? g = some b) :
    ∃ k < n, ∃ a, q k = some a ∧ g a = some b ∧ ∀ j < k, ∀ a', q j = some a' → g a' = none := by
  induction n with
  | zero => cases found
  | succ n ih =>
      rw [List.range_succ, List.filterMap_append, List.findSome?_append,
        Option.or_eq_some_iff] at found
      rcases found with early | ⟨none, last⟩
      · obtain ⟨k, lt, rest⟩ := ih early
        exact ⟨k, Nat.lt_succ_of_lt lt, rest⟩
      · cases entry : q n with
        | none => simp [entry] at last
        | some a =>
            refine ⟨n, Nat.lt_succ_self n, a, entry, by simpa [entry] using last, ?_⟩
            intro j lt a' entry'
            rw [List.findSome?_eq_none_iff] at none
            exact none a' (List.mem_filterMap.mpr ⟨j, List.mem_range.mpr lt, entry'⟩)

/-- There is no result if no candidate gives one. -/
theorem findSome?_eq_none {β : Type} {g : F → Option β} :
    (candidates (slopes f (slopePoints x (effort.radius x) effort.slopeOffsets))).findSome? g =
        none ↔ ∀ k α, Candidate effort f x k α → g α = none := by
  rw [candidates_eq, List.findSome?_eq_none_iff]
  simp only [List.mem_filterMap, List.mem_range, candidate_iff]
  exact ⟨fun all k α entry ↦ all α ⟨k, entry⟩, fun all α ⟨k, entry⟩ ↦ all k α entry⟩

/-- Otherwise the result is that of the first candidate that gives one. -/
theorem exists_of_findSome? {β : Type} {g : F → Option β} {b : β}
    (found : (candidates (slopes f (slopePoints x (effort.radius x)
      effort.slopeOffsets))).findSome? g = some b) :
    ∃ k α, Candidate effort f x k α ∧ g α = some b ∧
      ∀ j < k, ∀ β, Candidate effort f x j β → g β = none := by
  rw [candidates_eq] at found
  obtain ⟨k, lt, α, entry, result, before⟩ := findSome?_filterMap_range found
  exact ⟨k, α, candidate_iff.mpr ⟨lt, entry⟩, result,
    fun j less β candidate ↦ before j less β (candidate_iff.mp candidate).2⟩

end ScalarSolve.Suggestion
