import ScalarSolve.Proofs.Arith.Double
import ScalarSolve.Proofs.Arith.Order
import ScalarSolve.Proofs.Expression.Curve
import ScalarSolve.Region.Contraction

/-!
# What a contraction check sums up

A check goes through its samples once and carries the steepest slope so far, if there is one.  What
it reports is what a look at all samples together would say: which of them have no slope, the
greatest magnitude among the others, and whether all of these are less than one.  A check without
any slope says neither.
-/

namespace ScalarSolve

open Formula

/-- The central difference is finite if there is one. -/
theorem Derivative.isFinite_of_atDefaultStep {F : Type} [Arith F] {f : PartialMap F} {x d : F}
    (slope : atDefaultStep f x = .ok d) : Arith.isFinite d := by
  unfold atDefaultStep central at slope
  cases forward : f (x + defaultStep x) with
  | error e =>
      rw [forward] at slope
      cases slope
  | ok y =>
      cases backward : f (x - defaultStep x) with
      | error e =>
          rw [forward, backward] at slope
          cases slope
      | ok z =>
          rw [forward, backward] at slope
          change (if _ then Except.ok _ else Except.error _) = _ at slope
          split at slope
          · next finite =>
              cases slope
              exact finite
          · cases slope

namespace Contraction

variable {g : PartialMap Float} {point : Nat → Float} {n : Nat} {c : Contraction Float}

/-- What a check holds behind the first `n` points. -/
structure Summarizes (g : PartialMap Float) (point : Nat → Float) (n : Nat)
    (c : Contraction Float) : Prop where
  skipped : c.skipped =
    (List.range n).countP fun i ↦ !(Derivative.atDefaultStep g (point i)).isOk
  counted : c.evaluated + c.skipped = n
  unknown : c.steepest = none ↔ ∀ i < n, ∃ e, Derivative.atDefaultStep g (point i) = .error e
  attained : ∀ m, c.steepest = some m →
    ∃ i < n, ∃ d, Derivative.atDefaultStep g (point i) = .ok d ∧ m = Arith.abs d
  greatest : ∀ m, c.steepest = some m →
    ∀ i < n, ∀ d, Derivative.atDefaultStep g (point i) = .ok d → Arith.le (Arith.abs d) m

namespace Summarizes

theorem empty : Summarizes g point 0 ⟨none, 0, 0⟩ where
  skipped := rfl
  counted := rfl
  unknown := iff_of_true rfl fun _ lt ↦ absurd lt (Nat.not_lt_zero _)
  attained _ found := nomatch found
  greatest _ found := nomatch found

/-- A sample without a slope is skipped. -/
theorem skip (h : Summarizes g point n c) {e : EvalError Float}
    (undefined : Derivative.atDefaultStep g (point n) = .error e) :
    Summarizes g point (n + 1) (step g c (point n)) := by
  unfold step
  rw [undefined]
  refine ⟨?_, ?_, ?_, ?_, ?_⟩
  · rw [List.range_succ, List.countP_append, ← h.skipped, List.countP_singleton, undefined]
    rfl
  · have counted := h.counted
    dsimp only
    omega
  · rw [h.unknown, Nat.forall_lt_succ_right, and_iff_left ⟨e, undefined⟩]
  · intro m found
    obtain ⟨i, lt, attained⟩ := h.attained m found
    exact ⟨i, Nat.lt_succ_of_lt lt, attained⟩
  · intro m found
    rw [Nat.forall_lt_succ_right]
    refine ⟨h.greatest m found, fun d slope ↦ ?_⟩
    cases undefined.symm.trans slope

/-- The magnitude that a check carries is a finite number. -/
theorem isFinite (h : Summarizes g point n c) {m : Float} (found : c.steepest = some m) :
    Arith.isFinite m := by
  obtain ⟨i, -, d, slope, rfl⟩ := h.attained m found
  exact Double.isFinite_abs d (Derivative.isFinite_of_atDefaultStep slope)

/-- A sample with a slope is evaluated, and the steeper one is carried on. -/
theorem slope (h : Summarizes g point n c) {d : Float}
    (slope : Derivative.atDefaultStep g (point n) = .ok d) :
    Summarizes g point (n + 1) (step g c (point n)) := by
  have finite := Double.isFinite_abs d (Derivative.isFinite_of_atDefaultStep slope)
  unfold step
  rw [slope]
  refine ⟨?_, ?_, ?_, ?_, ?_⟩
  · rw [List.range_succ, List.countP_append, ← h.skipped, List.countP_singleton, slope]
    rfl
  · have counted := h.counted
    dsimp only
    omega
  · refine iff_of_false nofun fun all ↦ ?_
    obtain ⟨e, undefined⟩ := all n (Nat.lt_succ_self n)
    cases undefined.symm.trans slope
  · rintro m ⟨⟩
    have last : ∃ i < n + 1, ∃ d', Derivative.atDefaultStep g (point i) = .ok d' ∧
        Arith.abs d = Arith.abs d' :=
      ⟨n, Nat.lt_succ_self n, d, slope, rfl⟩
    cases found : c.steepest with
    | none => exact last
    | some m =>
        dsimp only
        rw [Double.max_eq (h.isFinite found)]
        split
        · exact last
        · obtain ⟨i, lt, attained⟩ := h.attained m found
          exact ⟨i, Nat.lt_succ_of_lt lt, attained⟩
  · rintro m ⟨⟩
    rw [Nat.forall_lt_succ_right]
    cases found : c.steepest with
    | none =>
        refine ⟨fun i lt d' slope' ↦ ?_, fun d' slope' ↦ ?_⟩
        · obtain ⟨e, undefined⟩ := h.unknown.mp found i lt
          cases undefined.symm.trans slope'
        · obtain rfl := Except.ok.inj (slope.symm.trans slope')
          exact Double.le_self finite
    | some m =>
        refine ⟨fun i lt d' slope' ↦ ?_, fun d' slope' ↦ ?_⟩
        · exact Double.le_trans (h.greatest m found i lt d' slope')
            (Double.fst_le_max (h.isFinite found) _)
        · obtain rfl := Except.ok.inj (slope.symm.trans slope')
          exact Double.snd_le_max (h.isFinite found) finite

/-- A check says that a map is contractive if there is a slope and all of them are less than one. -/
theorem contractive?_eq_true (h : Summarizes g point n c) :
    c.contractive? = some true ↔
      (∃ i < n, ∃ d, Derivative.atDefaultStep g (point i) = .ok d) ∧
        ∀ i < n, ∀ d, Derivative.atDefaultStep g (point i) = .ok d →
          Arith.lt (Arith.abs d) Arith.one := by
  unfold contractive?
  rw [Option.map_eq_some_iff]
  constructor
  · rintro ⟨m, found, less⟩
    obtain ⟨i, lt, d, slope, -⟩ := h.attained m found
    refine ⟨⟨i, lt, d, slope⟩, fun j lt' d' slope' ↦ ?_⟩
    exact Double.lt_of_le_of_lt (h.greatest m found j lt' d' slope') less
  · rintro ⟨⟨i, lt, d, slope⟩, all⟩
    cases found : c.steepest with
    | none =>
        obtain ⟨e, undefined⟩ := h.unknown.mp found i lt
        cases undefined.symm.trans slope
    | some m =>
        obtain ⟨j, lt', d', slope', rfl⟩ := h.attained m found
        exact ⟨_, rfl, all j lt' d' slope'⟩

/-- It says that the map is not if there is a slope that is not less than one. -/
theorem contractive?_eq_false (h : Summarizes g point n c) :
    c.contractive? = some false ↔
      ∃ i < n, ∃ d, Derivative.atDefaultStep g (point i) = .ok d ∧
        ¬ Arith.lt (Arith.abs d) Arith.one := by
  unfold contractive?
  rw [Option.map_eq_some_iff]
  constructor
  · rintro ⟨m, found, steep⟩
    obtain ⟨i, lt, d, slope, rfl⟩ := h.attained m found
    exact ⟨i, lt, d, slope, Bool.not_eq_true _ ▸ steep⟩
  · rintro ⟨i, lt, d, slope, steep⟩
    cases found : c.steepest with
    | none =>
        obtain ⟨e, undefined⟩ := h.unknown.mp found i lt
        cases undefined.symm.trans slope
    | some m =>
        refine ⟨m, rfl, Bool.eq_false_of_not_eq_true fun less ↦ steep ?_⟩
        exact Double.lt_of_le_of_lt (h.greatest m found i lt d slope) less

end Summarizes

/-- What a check sums up behind points of a sequence, whatever the sequence is. -/
theorem summarizes_along (g : PartialMap Float) (point : Nat → Float) (n : Nat) :
    Summarizes g point n (along g ((List.range n).map point)) := by
  unfold along
  induction n with
  | zero => exact .empty
  | succ n ih =>
      rw [List.range_succ, List.map_append, List.foldl_append]
      change Summarizes g point (n + 1) (step g _ (point n))
      cases slope : Derivative.atDefaultStep g (point n) with
      | error e => exact ih.skip slope
      | ok d => exact ih.slope slope

/-! ## Checks -/

theorem sample_eq {F : Type} [Arith F] (g : PartialMap F) (lo hi : F) {samples : Nat}
    (any : 1 ≤ samples) :
    sample g lo hi samples = along g (Grid.points lo hi (samples - 1)) := by
  obtain ⟨last, rfl⟩ : ∃ last, samples = last + 1 := ⟨samples - 1, by omega⟩
  rfl

theorem summarizes_sample (g : PartialMap Float) (lo hi : Float) {samples : Nat}
    (any : 1 ≤ samples) :
    Summarizes g (Grid.point lo hi (samples - 1)) samples (sample g lo hi samples) := by
  have summarizes := summarizes_along g (Grid.point lo hi (samples - 1)) (samples - 1 + 1)
  rw [sample_eq g lo hi any, Grid.points]
  rwa [Nat.sub_add_cancel any] at summarizes ⊢

variable {a b : Float} {samples : Nat}

/-- Where its own checks hold, a check is that of its samples. -/
theorem check_eq_ok (finiteA : Arith.isFinite a) (finiteB : Arith.isFinite b)
    (apart : ¬ Arith.eq a b) (any : 2 ≤ samples) (few : samples ≤ maxSamples)
    (g : Curve Float) :
    check g a b samples = .ok (sample g.eval (Arith.min a b) (Arith.max a b) samples) := by
  unfold check
  rw [finiteA, finiteB, Bool.eq_false_of_not_eq_true apart, if_neg (by decide), if_neg (by omega)]

/-- The bounds may be given in either order. -/
theorem check_comm (finiteA : Arith.isFinite a) (finiteB : Arith.isFinite b)
    (apart : ¬ Arith.eq a b) (any : 2 ≤ samples) (few : samples ≤ maxSamples)
    (g : Curve Float) : check g b a samples = check g a b samples := by
  rw [check_eq_ok finiteA finiteB apart any few,
    check_eq_ok finiteB finiteA (fun eq ↦ apart (Double.eq_symm eq)) any few]
  rcases Double.lt_or_lt_of_ne finiteA finiteB apart with lt | gt
  · rw [Double.min_of_lt finiteA lt, Double.max_of_lt finiteA lt, Double.min_of_gt finiteB lt,
      Double.max_of_gt finiteB lt]
  · rw [Double.min_of_gt finiteA gt, Double.max_of_gt finiteA gt, Double.min_of_lt finiteB gt,
      Double.max_of_lt finiteB gt]

/-- The slope of a map at the sample with a number, if it has one there. -/
def slopeAt {F : Type} [Arith F] (g : Curve F) (a b : F) (samples i : Nat) :
    Except (EvalError F) F :=
  Derivative.atDefaultStep g.eval
    (Grid.point (Arith.min a b) (Arith.max a b) (samples - 1) i)

/-- A check between two different finite bounds, with an admitted number of samples, is the exact
summary of its samples.  Those without a slope are skipped and all others are evaluated; the
steepest slope is one of theirs, and no other is steeper; there is none, and no verdict, if all of
them are skipped; the map is contractive if there are slopes and all of them are less than one, and
it is not if one of them is not.  The order of the bounds does not matter. -/
theorem check_exact (finiteA : Arith.isFinite a) (finiteB : Arith.isFinite b)
    (apart : ¬ Arith.eq a b) (any : 2 ≤ samples) (few : samples ≤ 100000) (g : Curve Float) :
    ∃ c, check g a b samples = .ok c ∧ check g b a samples = .ok c ∧
      c.evaluated + c.skipped = samples ∧
      (c.skipped = (List.range samples).countP fun i ↦ !(slopeAt g a b samples i).isOk) ∧
      (c.steepest = none ↔ ∀ i < samples, ∃ e, slopeAt g a b samples i = .error e) ∧
      (∀ m, c.steepest = some m →
        (∃ i < samples, ∃ d, slopeAt g a b samples i = .ok d ∧ m = Arith.abs d) ∧
          ∀ i < samples, ∀ d, slopeAt g a b samples i = .ok d → Arith.le (Arith.abs d) m) ∧
      (c.contractive? = none ↔ c.steepest = none) ∧
      (c.contractive? = some true ↔
        (∃ i < samples, ∃ d, slopeAt g a b samples i = .ok d) ∧
          ∀ i < samples, ∀ d, slopeAt g a b samples i = .ok d →
            Arith.lt (Arith.abs d) Arith.one) ∧
      (c.contractive? = some false ↔
        ∃ i < samples, ∃ d, slopeAt g a b samples i = .ok d ∧
          ¬ Arith.lt (Arith.abs d) Arith.one) := by
  have checked := check_eq_ok finiteA finiteB apart any few g
  have summarizes := summarizes_sample g.eval (Arith.min a b) (Arith.max a b)
    (Nat.one_le_of_lt any)
  refine ⟨_, checked, (check_comm finiteA finiteB apart any few g).trans checked,
    summarizes.counted, summarizes.skipped, summarizes.unknown, fun m found ↦ ?_,
    Option.map_eq_none_iff, summarizes.contractive?_eq_true, summarizes.contractive?_eq_false⟩
  exact ⟨summarizes.attained m found, summarizes.greatest m found⟩

/-- The curve of `sqrt(x)`. -/
def squareRoot : Curve Float :=
  Expression.curveOfFits ⟨"sqrt(x)", ⟨[.var, .call .sqrt], 1⟩⟩ (by decide)

/-- On doubles, a check of the square root with three samples.  The first one is outside of the
domain, and so is one side of the second; the slope at the third decides. -/
theorem check_exact_squareRoot :
    Arith.isFinite (-1 : Float) ∧ Arith.isFinite (1 : Float) ∧ ¬ Arith.eq (-1 : Float) 1 ∧
      ∃ c, check squareRoot (-1) 1 3 = .ok c ∧ check squareRoot 1 (-1) 3 = .ok c ∧
        c.evaluated = 1 ∧ c.skipped = 2 ∧ c.contractive? = some true ∧
        (∀ i < 3, ∀ d, slopeAt squareRoot (-1) 1 3 i = .ok d →
          Arith.lt (Arith.abs d) Arith.one) ∧
        ∃ i < 3, ∃ d, slopeAt squareRoot (-1) 1 3 i = .ok d ∧ c.steepest = some (Arith.abs d) := by
  have finiteA : Arith.isFinite (-1 : Float) := by decide +kernel
  have finiteB : Arith.isFinite (1 : Float) := by decide +kernel
  have apart : ¬ Arith.eq (-1 : Float) 1 := by decide +kernel
  have checked : check squareRoot (-1) 1 3 = .ok ⟨some 0.5000000000026098, 1, 2⟩ := by
    decide +kernel
  obtain ⟨c, checked', reversed, -, -, -, steepest, -, contractive, -⟩ :=
    check_exact finiteA finiteB apart (by decide : 2 ≤ 3) (by decide) squareRoot
  obtain rfl := Except.ok.inj (checked.symm.trans checked')
  have verdict :
      (⟨some 0.5000000000026098, 1, 2⟩ : Contraction Float).contractive? = some true := by
    decide +kernel
  obtain ⟨⟨i, lt, d, slope, eq⟩, -⟩ := steepest _ rfl
  exact ⟨finiteA, finiteB, apart, _, checked, reversed, rfl, rfl, verdict,
    (contractive.mp verdict).2, i, lt, d, slope, congrArg some eq⟩

end Contraction

end ScalarSolve
