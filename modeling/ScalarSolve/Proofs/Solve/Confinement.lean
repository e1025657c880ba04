import ScalarSolve.Proofs.Arith.Midpoint
import ScalarSolve.Proofs.Region.Bracket
import ScalarSolve.Proofs.Solve.Halving

/-!
# Bisection stays in its bracket

Bisection asks for the function at its two ends and at midpoints of enclosures.  On doubles a
midpoint is not outside of its enclosure as long as the width of that does not overflow; and since
enclosures only get narrower, it is the width of the bracket that decides this for the whole search.
-/

namespace ScalarSolve

open Formula

variable {l : Limits Float} {f : PartialMap Float} {a b : Float} {e : Enclosure Float}
  {left : Nat} {xs : Iterates Float} {r : Run Float}

namespace Bisection

/-! ## The points that are asked for -/

section

variable {F : Type} [Arith F] {l : Limits F} {f g : PartialMap F} {a b : F} {left : Nat}
  {e : Enclosure F} {xs : Iterates F} {r : Run F}

/-- The search between two ends evaluates the function at this point. -/
inductive Asks (l : Limits F) (f : PartialMap F) (a b : F) : F → Prop
  | first : Asks l f a b a
  | second {ya : F} (valueA : f a = .ok ya) (nonzeroA : ¬ Arith.isZero ya) : Asks l f a b b
  | midpoint {left : Nat} {e : Enclosure F} {xs : Iterates F}
      (stage : Stage l f a b (left + 1) e xs) : Asks l f a b e.mid
  | last {e : Enclosure F} {xs : Iterates F} (stage : Stage l f a b 0 e xs) : Asks l f a b xs.last

theorem iterate_congr (agree : ∀ x, Asks l f a b x → g x = f x) (stage : Stage l f a b left e xs) :
    iterate l g left e xs = iterate l f left e xs := by
  induction left generalizing e xs with
  | zero => exact congrArg (xs.exhausted l.maxIterations) (agree _ (.last stage))
  | succ left ih =>
      unfold iterate
      rw [agree _ (.midpoint stage)]
      cases value : f e.mid with
      | error err => rfl
      | ok y =>
          dsimp only
          split
          · rfl
          · next far =>
              rw [Bool.or_eq_true, not_or] at far
              exact ih (.narrow stage value far.1 far.2)

/-- The values at the other points do not matter. -/
theorem outcome_congr (agree : ∀ x, Asks l f a b x → g x = f x) :
    outcome l g a b = outcome l f a b := by
  unfold outcome fromEnds
  rw [agree a .first]
  cases valueA : f a with
  | error err => rfl
  | ok ya =>
      dsimp only
      split
      · rfl
      · next nonzeroA =>
          rw [agree b (.second valueA nonzeroA)]
          cases valueB : f b with
          | error err => rfl
          | ok yb =>
              dsimp only
              split
              · rfl
              · next nonzeroB =>
                  split
                  · rfl
                  · next differ =>
                      exact iterate_congr agree (.enter valueA valueB ⟨nonzeroA, nonzeroB, differ⟩)

/-- Between values of different sign a search breaks down at midpoints only. -/
theorem Ending.not_diverged (h : Ending l f a b r) {ya yb : F} (valueA : f a = .ok ya)
    (valueB : f b = .ok yb) (opposed : Opposed ya yb)
    (defined : ∀ left e xs, Stage l f a b (left + 1) e xs → ∃ y, f e.mid = .ok y)
    (why : Breakdown F) : r.termination ≠ .diverged why := by
  intro diverged
  cases h with
  | undefinedFirst valueA' => cases valueA.symm.trans valueA'
  | undefinedSecond valueA' nonzeroA valueB' => cases valueB.symm.trans valueB'
  | sameSign valueA' nonzeroA valueB' nonzeroB same =>
      obtain rfl := Except.ok.inj (valueA.symm.trans valueA')
      obtain rfl := Except.ok.inj (valueB.symm.trans valueB')
      exact opposed.differ same
  | undefined stage value =>
      obtain ⟨y, value'⟩ := defined _ _ _ stage
      cases value.symm.trans value'
  | rootFirst | rootSecond | converged | exhausted => cases diverged

end

/-! ## The points in the bracket -/

/-- This point is between two ends in either order. -/
def Inside (a b x : Float) : Prop := Arith.le (Arith.min a b) x ∧ Arith.le x (Arith.max a b)

theorem inside_fst (finiteA : Arith.isFinite a) (b : Float) : Inside a b a :=
  ⟨Double.min_le_fst finiteA b, Double.fst_le_max finiteA b⟩

theorem inside_snd (finiteA : Arith.isFinite a) (finiteB : Arith.isFinite b) : Inside a b b :=
  ⟨Double.min_le_snd finiteA finiteB, Double.snd_le_max finiteA finiteB⟩

theorem isFinite_of_inside (finiteA : Arith.isFinite a) (finiteB : Arith.isFinite b) {x : Float}
    (inside : Inside a b x) : Arith.isFinite x :=
  Double.isFinite_of_le (Double.isFinite_min finiteA finiteB) (Double.isFinite_max finiteA finiteB)
    inside.1 inside.2

/-- An enclosure in the bracket, with its ends in order. -/
structure Within (a b : Float) (e : Enclosure Float) : Prop where
  inside_lo : Inside a b e.lo
  inside_hi : Inside a b e.hi
  ordered : Arith.le e.lo e.hi

theorem within_between (finiteA : Arith.isFinite a) (finiteB : Arith.isFinite b) (y z : Float) :
    Within a b (.between a b y z) := by
  unfold Enclosure.between
  split
  · next lt => exact ⟨inside_fst finiteA b, inside_snd finiteA finiteB, Double.le_of_lt lt⟩
  · next ge =>
      exact ⟨inside_snd finiteA finiteB, inside_fst finiteA b,
        Double.le_of_not_lt finiteA finiteB ge⟩

/-- The midpoint is in the enclosure, since it is no wider than the bracket. -/
theorem Within.between_mid (finiteA : Arith.isFinite a) (finiteB : Arith.isFinite b)
    (width : Arith.isFinite (Arith.max a b - Arith.min a b)) (h : Within a b e) :
    Arith.le e.lo e.mid ∧ Arith.le e.mid e.hi := by
  refine Double.between_midpoint (isFinite_of_inside finiteA finiteB h.inside_lo)
    (isFinite_of_inside finiteA finiteB h.inside_hi) h.ordered ?_
  exact Double.isFinite_sub (Double.isFinite_min finiteA finiteB)
    (Double.isFinite_max finiteA finiteB) width h.inside_lo.1 h.ordered h.inside_hi.2

theorem Within.inside (h : Within a b e) {x : Float} (between : Arith.le e.lo x ∧ Arith.le x e.hi) :
    Inside a b x :=
  ⟨Double.le_trans h.inside_lo.1 between.1, Double.le_trans between.2 h.inside_hi.2⟩

theorem Within.narrow (h : Within a b e) (mid : Arith.le e.lo e.mid ∧ Arith.le e.mid e.hi)
    (y : Float) : Within a b (e.narrow y) := by
  unfold Enclosure.narrow
  split
  · exact ⟨h.inside mid, h.inside_hi, mid.2⟩
  · exact ⟨h.inside_lo, h.inside mid, mid.1⟩

/-- At every stage the enclosure and the last point are in the bracket. -/
theorem Stage.within (finiteA : Arith.isFinite a) (finiteB : Arith.isFinite b)
    (width : Arith.isFinite (Arith.max a b - Arith.min a b)) (h : Stage l f a b left e xs) :
    Within a b e ∧ Inside a b xs.last := by
  induction h with
  | enter => exact ⟨within_between finiteA finiteB _ _, inside_fst finiteA b⟩
  | narrow before value away wide ih =>
      have mid := ih.1.between_mid finiteA finiteB width
      exact ⟨ih.1.narrow mid _, ih.1.inside mid⟩

theorem Asks.inside (finiteA : Arith.isFinite a) (finiteB : Arith.isFinite b)
    (width : Arith.isFinite (Arith.max a b - Arith.min a b)) {x : Float} (h : Asks l f a b x) :
    Inside a b x := by
  cases h with
  | first => exact inside_fst finiteA b
  | second => exact inside_snd finiteA finiteB
  | midpoint stage =>
      have within := (stage.within finiteA finiteB width).1
      exact within.inside (within.between_mid finiteA finiteB width)
  | last stage => exact (stage.within finiteA finiteB width).2

/-- A bracket whose width overflows has different ends, which are the ends of the first enclosure,
and the midpoint of that is infinite. -/
theorem not_isFinite_mid (finiteA : Arith.isFinite a) (finiteB : Arith.isFinite b)
    (overflow : ¬ Arith.isFinite (Arith.max a b - Arith.min a b)) (y z : Float) :
    (Enclosure.between a b y z).mid =
        Arith.min a b + Arith.half * (Arith.max a b - Arith.min a b) ∧
      ¬ Arith.isFinite (Enclosure.between a b y z).mid := by
  have infinite := Double.not_isFinite_midpoint (Double.isFinite_min finiteA finiteB)
    (Double.isFinite_max finiteA finiteB) overflow
  unfold Enclosure.between
  by_cases lt : Arith.lt a b
  · have min : Arith.min a b = a :=
      (Double.min_eq finiteA b).trans (if_neg (Double.not_lt_of_lt lt))
    have max : Arith.max a b = b := (Double.max_eq finiteA b).trans (if_pos lt)
    rw [min, max] at infinite ⊢
    rw [if_pos lt]
    exact ⟨rfl, infinite⟩
  · have max : Arith.max a b = a := (Double.max_eq finiteA b).trans (if_neg lt)
    by_cases gt : Arith.lt b a
    · have min : Arith.min a b = b := (Double.min_eq finiteA b).trans (if_pos gt)
      rw [min, max] at infinite ⊢
      rw [if_neg lt]
      exact ⟨rfl, infinite⟩
    · have min : Arith.min a b = a := (Double.min_eq finiteA b).trans (if_neg gt)
      rw [min, max] at overflow
      exact absurd (Double.isFinite_sub_self finiteA) overflow

/-- A valid search between two points where a curve has values of different sign evaluates it
between these points only, and what it is elsewhere does not matter; so if the curve has a
value everywhere between them the search does not break down.  This is so unless the width of the
bracket overflows.  Then the first midpoint is infinite, and the search breaks down there. -/
theorem solve_inside (valid : l.Valid) {f : Curve Float} {ya yb : Float}
    (valueA : f.eval a = .ok ya) (valueB : f.eval b = .ok yb) (opposed : Opposed ya yb) :
    ∃ r, solve l f a b = .ok r ∧
      (Arith.isFinite (Arith.max a b - Arith.min a b) →
        (∀ x, Asks l f.eval a b x → Inside a b x) ∧
        (∀ g : PartialMap Float, (∀ x, Inside a b x → g x = f.eval x) → findRoot l g a b = .ok r) ∧
        ((∀ x, Inside a b x → ∃ y, f.eval x = .ok y) → ∀ why, r.termination ≠ .diverged why)) ∧
      (¬ Arith.isFinite (Arith.max a b - Arith.min a b) →
        ∃ x, x = Arith.min a b + Arith.half * (Arith.max a b - Arith.min a b) ∧
          ¬ Arith.isFinite x ∧ Asks l f.eval a b x ∧
          r = (Iterates.start a).undefined (.nonFinite x)) := by
  have finiteA := Curve.isFinite_of_eval valueA
  have finiteB := Curve.isFinite_of_eval valueB
  refine ⟨_, findRoot_eq_ok.mpr ⟨valid, finiteA, finiteB, rfl⟩, fun width ↦ ?_, fun overflow ↦ ?_⟩
  · refine ⟨fun x asks ↦ asks.inside finiteA finiteB width, fun g agree ↦ ?_, fun defined ↦ ?_⟩
    · refine findRoot_eq_ok.mpr ⟨valid, finiteA, finiteB, (outcome_congr ?_).symm⟩
      exact fun x asks ↦ agree x (asks.inside finiteA finiteB width)
    · refine (ending_outcome l f.eval a b).not_diverged valueA valueB opposed ?_
      exact fun left e xs stage ↦ defined _ (Asks.inside finiteA finiteB width (.midpoint stage))
  · obtain ⟨eq, infinite⟩ := not_isFinite_mid finiteA finiteB overflow ya yb
    obtain ⟨n, iterations⟩ : ∃ n, l.maxIterations = n + 1 :=
      Nat.exists_eq_add_of_le' valid.some_iterations
    have stage : Stage l f.eval a b (n + 1) (.between a b ya yb) (.start a) :=
      iterations ▸ .enter valueA valueB opposed
    refine ⟨(Enclosure.between a b ya yb).mid, eq, infinite, .midpoint stage, ?_⟩
    exact stage.outcome_of_undefined (f.eval_of_not_isFinite _ infinite)

open Curve (identity draws_identity eval_identity)

theorem exists_eval_identity (finiteA : Arith.isFinite a) (finiteB : Arith.isFinite b) (x : Float)
    (inside : Inside a b x) : ∃ y, identity.eval x = .ok y :=
  ⟨x, eval_identity (isFinite_of_inside finiteA finiteB inside)⟩

/-- On doubles, the search for a root of `x` between minus one and two. -/
theorem solve_inside_identity :
    Limits.Valid (⟨0.125, 9⟩ : Limits Float) ∧ identity.eval (-1) = .ok (-1) ∧
      identity.eval 2 = .ok 2 ∧ Opposed (-1 : Float) 2 ∧
      Arith.isFinite (Arith.max (-1) 2 - Arith.min (-1) 2 : Float) ∧
      ∃ r, solve ⟨0.125, 9⟩ identity (-1) 2 = .ok r ∧ r.trace = [-1, 0.5, -0.25, 0.125] ∧
        (∀ x, Asks ⟨0.125, 9⟩ identity.eval (-1) 2 x → Inside (-1) 2 x) ∧
        ∀ why, r.termination ≠ .diverged why := by
  have valid : Limits.Valid (⟨0.125, 9⟩ : Limits Float) :=
    ⟨by decide +kernel, by decide, by decide⟩
  have finiteA : Arith.isFinite (-1 : Float) := by decide +kernel
  have finiteB : Arith.isFinite (2 : Float) := by decide +kernel
  have opposed : Opposed (-1 : Float) 2 := ⟨by decide +kernel, by decide +kernel, by decide +kernel⟩
  have width : Arith.isFinite (Arith.max (-1) 2 - Arith.min (-1) 2 : Float) := by decide +kernel
  have ran : solve ⟨0.125, 9⟩ identity (-1) 2 =
      .ok ⟨0.125, 0.125, 0.375, 3, [-1, 0.5, -0.25, 0.125], .converged⟩ := by decide +kernel
  obtain ⟨r, ran', inside, -⟩ :=
    solve_inside valid (eval_identity finiteA) (eval_identity finiteB) opposed
  obtain ⟨asked, -, defined⟩ := inside width
  obtain rfl := Except.ok.inj (ran.symm.trans ran')
  exact ⟨valid, eval_identity finiteA, eval_identity finiteB, opposed, width, _, ran, rfl, asked,
    defined (exists_eval_identity finiteA finiteB)⟩

/-- On doubles, the width between two huge numbers of different sign overflows.  The search for the
root of `x` between them evaluates it at infinity and breaks down, though it has a value everywhere
between them. -/
theorem breakdown_of_overflow :
    Expression.Draws "x" identity ∧ Limits.Valid (⟨0.125, 9⟩ : Limits Float) ∧
      identity.eval (-1.5e308) = .ok (-1.5e308) ∧ identity.eval 1.5e308 = .ok 1.5e308 ∧
      Opposed (-1.5e308 : Float) 1.5e308 ∧
      (∀ x, Inside (-1.5e308) 1.5e308 x → ∃ y, identity.eval x = .ok y) ∧
      Asks ⟨0.125, 9⟩ identity.eval (-1.5e308) 1.5e308 Arith.infinity ∧
      ¬ Inside (-1.5e308) 1.5e308 Arith.infinity ∧
      ∃ r, solve ⟨0.125, 9⟩ identity (-1.5e308) 1.5e308 = .ok r ∧
        r.termination = .diverged (.undefined (.nonFinite Arith.infinity)) := by
  have finiteA : Arith.isFinite (-1.5e308 : Float) := by decide +kernel
  have finiteB : Arith.isFinite (1.5e308 : Float) := by decide +kernel
  have opposed : Opposed (-1.5e308 : Float) 1.5e308 :=
    ⟨by decide +kernel, by decide +kernel, by decide +kernel⟩
  have stage : Stage ⟨0.125, 9⟩ identity.eval (-1.5e308) 1.5e308 9 _ _ :=
    .enter (eval_identity finiteA) (eval_identity finiteB) opposed
  have mid : (Enclosure.between (-1.5e308) 1.5e308 (-1.5e308) 1.5e308 : Enclosure Float).mid =
      Arith.infinity := by decide +kernel
  refine ⟨draws_identity, ⟨by decide +kernel, by decide, by decide⟩, eval_identity finiteA,
    eval_identity finiteB, opposed, exists_eval_identity finiteA finiteB, mid ▸ .midpoint stage, ?_,
    ⟨-1.5e308, Arith.nan, 0, 0, [-1.5e308],
      .diverged (.undefined (.nonFinite Arith.infinity))⟩, by decide +kernel, rfl⟩
  intro inside
  exact absurd (isFinite_of_inside finiteA finiteB inside) (by decide +kernel)

end Bisection

end ScalarSolve
