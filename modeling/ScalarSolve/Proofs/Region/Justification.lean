import ScalarSolve.Proofs.Expression.Curve
import ScalarSolve.Proofs.Region.Candidates
import ScalarSolve.Proofs.Region.Summary

/-!
# What justifies a suggestion

A suggestion rests on probes only.  Its map is that of the first candidate whose probes on the first
interval all have slopes less than one; each end of its interval is reached by a chain of radii from
the first one, such that the probes between any two neighbours of the chain have such slopes too;
and no point that is tried as a starting point is flatter than the one that is suggested.
-/

namespace ScalarSolve.Suggestion

open Formula Double

/-- Every probe in an interval has a slope, of magnitude less than one. -/
def Contracts (g : PartialMap Float) (lo hi : Float) (probes : ℕ) : Prop :=
  ∀ i < probes, ∃ d, Derivative.atDefaultStep g (Grid.point lo hi (probes - 1) i) = .ok d ∧
    Arith.lt (Arith.abs d) Arith.one

/-- The map of a candidate has such probes on the first interval around a point. -/
def Stable (effort : Effort Float) (f : Family Float) (x α : Float) : Prop :=
  Contracts (f.residualMap α) (x - effort.radius x) (x + effort.radius x) effort.probeSamples

/-- Probes between two radii on one side of a point, the outer of which is at a finite point. -/
structure Shell (g : PartialMap Float) (probes : ℕ) (x side inner outer : Float) : Prop where
  finite : Arith.isFinite (x + side * outer)
  contracts : Contracts g (Arith.min (x + side * inner) (x + side * outer))
    (Arith.max (x + side * inner) (x + side * outer)) probes

/-- A chain with a number of links, each of which is backed by a relation. -/
inductive Chain (link : Float → Float → Prop) : ℕ → Float → Float → Prop where
  | refl (r : Float) : Chain link 0 r r
  | head {r s t : Float} {n : ℕ} (first : link r s) (rest : Chain link n s t) :
      Chain link (n + 1) r t

/-- Of the points with numbers up to `n`, the one with number `j` is the first of the flattest. -/
structure Flattest (g : PartialMap Float) (point : ℕ → Float) (n j : ℕ) : Prop where
  bound : j ≤ n
  least : ∀ i ≤ n, Arith.le (steepness g (point j)) (steepness g (point i))
  first : ∀ i < j, Arith.lt (steepness g (point j)) (steepness g (point i))

/-- The points that are tried as starting points: the first one of the search, then those that cut
an interval into equal parts. -/
def startPoint (x lo hi : Float) (count : ℕ) : ℕ → Float
  | 0 => x
  | i + 1 => lo + (hi - lo) * Arith.ofNat (i + 1) / (Arith.ofNat count + Arith.one)

variable {g : PartialMap Float} {x : Float}

/-! ## Probes -/

theorem isStable_iff {lo hi : Float} {probes : ℕ} (any : 1 ≤ probes) :
    isStable g lo hi probes ↔ Contracts g lo hi probes := by
  have summary := Contraction.summarizes_sample g lo hi any
  rw [isStable, Bool.and_eq_true, beq_iff_eq, Contraction.isContractive, beq_iff_eq,
    summary.contractive?_eq_true, summary.skipped, List.countP_eq_zero]
  constructor
  · rintro ⟨whole, -, less⟩ i lt
    have sloped := whole i (List.mem_range.mpr lt)
    cases slope : Derivative.atDefaultStep g (Grid.point lo hi (probes - 1) i) with
    | error e =>
        rw [slope] at sloped
        exact absurd rfl sloped
    | ok d => exact ⟨d, rfl, less i lt d slope⟩
  · intro all
    refine ⟨fun i mem ↦ ?_, ?_, fun i lt d slope ↦ ?_⟩
    · obtain ⟨d, slope, -⟩ := all i (List.mem_range.mp mem)
      rw [slope]
      exact Bool.false_ne_true
    · obtain ⟨d, slope, -⟩ := all 0 any
      exact ⟨0, any, d, slope⟩
    · obtain ⟨d', slope', less⟩ := all i lt
      obtain rfl := Except.ok.inj (slope.symm.trans slope')
      exact less

theorem shellStable_iff {probes : ℕ} {side inner outer : Float} (any : 1 ≤ probes) :
    shellStable g probes x side inner outer ↔ Shell g probes x side inner outer := by
  rw [shellStable, Bool.and_eq_true, isStable_iff any]
  exact ⟨fun ⟨finite, contracts⟩ ↦ ⟨finite, contracts⟩,
    fun ⟨finite, contracts⟩ ↦ ⟨finite, contracts⟩⟩

/-! ## Chains of radii -/

namespace Chain

variable {link link' : Float → Float → Prop} {n : ℕ} {r s : Float}

theorem mono (h : Chain link n r s) (weaker : ∀ a b, link a b → link' a b) :
    Chain link' n r s := by
  induction h with
  | refl r => exact .refl r
  | head first _ ih => exact .head (weaker _ _ first) ih

end Chain

/-- Halving adds a link for each radius that is accepted, and one that is not costs a step too. -/
theorem exists_chain_refine (stable : Float → Float → Bool) (steps : ℕ) (good bad : Float) :
    ∃ n ≤ steps, Chain (fun a b ↦ stable a b) n good (refine stable steps good bad) := by
  induction steps generalizing good bad with
  | zero => exact ⟨0, le_rfl, .refl good⟩
  | succ steps ih =>
      rw [refine]
      split
      · next accepted =>
          obtain ⟨n, le, chain⟩ := ih (Arith.half * (good + bad)) bad
          exact ⟨n + 1, Nat.succ_le_succ le, .head accepted chain⟩
      · obtain ⟨n, le, chain⟩ := ih good (Arith.half * (good + bad))
        exact ⟨n, Nat.le_succ_of_le le, chain⟩

/-- Doubling adds a link for each radius, up to the first one that is not accepted. -/
theorem exists_chain_expand (stable : Float → Float → Bool) (halvings doublings : ℕ)
    (good : Float) : ∃ n ≤ doublings + halvings,
      Chain (fun a b ↦ stable a b) n good (expand stable halvings doublings good) := by
  induction doublings generalizing good with
  | zero => exact ⟨0, Nat.zero_le _, .refl good⟩
  | succ doublings ih =>
      rw [expand]
      split
      · next accepted =>
          obtain ⟨n, le, chain⟩ := ih (good * Arith.ofNat 2)
          exact ⟨n + 1, by omega, .head accepted chain⟩
      · obtain ⟨n, le, chain⟩ := exists_chain_refine stable halvings good (good * Arith.ofNat 2)
        exact ⟨n, by omega, chain⟩

/-! ## Starting points -/

theorem le_self_steepness (g : PartialMap Float) (x : Float) :
    Arith.le (steepness g x) (steepness g x) := by
  unfold steepness
  cases slope : Derivative.atDefaultStep g x with
  | ok d => exact le_self (isFinite_abs d (Derivative.isFinite_of_atDefaultStep slope))
  | error e =>
      change Arith.le (Arith.infinity : Float) Arith.infinity
      decide +kernel

/-- One more point, which is taken if it is flatter than the best one so far. -/
def flatter (g : PartialMap Float) (best : Float × Float) (y : Float) : Float × Float :=
  if Arith.lt (steepness g y) best.2 then (y, steepness g y) else best

theorem flattest_eq (g : PartialMap Float) (x : Float) (others : List Float) :
    flattest g x others = (others.foldl (flatter g) (x, steepness g x)).1 :=
  rfl

namespace Flattest

variable {point : ℕ → Float} {n j : ℕ}

theorem zero : Flattest g point 0 0 where
  bound := le_rfl
  least i le := by
    obtain rfl := Nat.le_zero.mp le
    exact le_self_steepness g _
  first i lt := absurd lt (Nat.not_lt_zero i)

/-- A point that is flatter than the best one is flatter than all others. -/
theorem take (h : Flattest g point n j)
    (better : Arith.lt (steepness g (point (n + 1))) (steepness g (point j))) :
    Flattest g point (n + 1) (n + 1) where
  bound := le_rfl
  least i le := by
    rcases Nat.le_succ_iff.mp le with le | rfl
    · exact le_of_lt (lt_of_lt_of_le better (h.least i le))
    · exact le_self_steepness g _
  first i lt := lt_of_lt_of_le better (h.least i (Nat.le_of_lt_succ lt))

theorem keep (h : Flattest g point n j)
    (worse : ¬ Arith.lt (steepness g (point (n + 1))) (steepness g (point j))) :
    Flattest g point (n + 1) j where
  bound := Nat.le_succ_of_le h.bound
  least i le := by
    rcases Nat.le_succ_iff.mp le with le | rfl
    · exact h.least i le
    · exact le_of_not_lt_of_le_self (le_self_steepness g _) (le_self_steepness g _) worse
  first := h.first

end Flattest

/-- The point that is carried along is the first of the flattest so far. -/
theorem exists_flattest_foldl (g : PartialMap Float) (point : ℕ → Float) (n : ℕ) :
    ∃ j, Flattest g point n j ∧
      ((List.range n).map fun i ↦ point (i + 1)).foldl (flatter g)
        (point 0, steepness g (point 0)) = (point j, steepness g (point j)) := by
  induction n with
  | zero => exact ⟨0, .zero, rfl⟩
  | succ n ih =>
      obtain ⟨j, best, carried⟩ := ih
      rw [List.range_succ, List.map_append, List.foldl_append, carried, List.map_singleton,
        List.foldl_cons, List.foldl_nil, flatter]
      split
      · next better => exact ⟨n + 1, best.take better, rfl⟩
      · next worse => exact ⟨j, best.keep worse, rfl⟩

theorem exists_flattest (g : PartialMap Float) (x lo hi : Float) (count : ℕ) :
    ∃ j, Flattest g (startPoint x lo hi count) count j ∧
      flattest g x (interior lo hi count) = startPoint x lo hi count j := by
  obtain ⟨j, best, carried⟩ := exists_flattest_foldl g (startPoint x lo hi count) count
  refine ⟨j, best, ?_⟩
  rw [flattest_eq, interior]
  exact congrArg Prod.fst carried

/-! ## Suggestions -/

/-- What a suggestion rests on. -/
structure Justified (effort : Effort Float) (f : Family Float) (x : Float)
    (s : Suggestion Float) : Prop where
  /-- Its map is that of the first stable candidate. -/
  candidate : ∃ k, Candidate effort f.toCurve x k s.α ∧ Stable effort f x s.α ∧
    ∀ j < k, ∀ β, Candidate effort f.toCurve x j β → ¬ Stable effort f x β
  /-- The radius below is reached link by link. -/
  below : ∃ d, s.lo = x - d ∧ ∃ n ≤ effort.maxExpansions + effort.refineSteps,
    Chain (Shell (f.residualMap s.α) effort.probeSamples x (-Arith.one)) n
      (effort.radius x) d
  /-- So is the radius above. -/
  above : ∃ u, s.hi = x + u ∧ ∃ n ≤ effort.maxExpansions + effort.refineSteps,
    Chain (Shell (f.residualMap s.α) effort.probeSamples x Arith.one) n
      (effort.radius x) u
  /-- The starting point is the first of the flattest. -/
  start : ∃ j,
    Flattest (f.residualMap s.α) (startPoint x s.lo s.hi effort.suggestSamples)
      effort.suggestSamples j ∧ s.start = startPoint x s.lo s.hi effort.suggestSamples j

variable {effort : Effort Float} {f : Family Float}

theorem ofCandidate?_eq_none {α : Float} (any : 1 ≤ effort.probeSamples) :
    ofCandidate? effort f x α = none ↔ ¬ Stable effort f x α := by
  rw [Stable, ← isStable_iff any, ofCandidate?, Option.map_eq_none_iff, stableRadii?]
  split <;> simp [*]

theorem exists_reach (any : 1 ≤ effort.probeSamples) (g : PartialMap Float) (x side r : Float) :
    ∃ n ≤ effort.maxExpansions + effort.refineSteps,
      Chain (Shell g effort.probeSamples x side) n r
        (expand (shellStable g effort.probeSamples x side) effort.refineSteps
          effort.maxExpansions r) := by
  obtain ⟨n, le, chain⟩ := exists_chain_expand (shellStable g effort.probeSamples x side)
    effort.refineSteps effort.maxExpansions r
  exact ⟨n, le, chain.mono fun a b ↦ (shellStable_iff any).mp⟩

/-- A suggestion for a candidate rests on its probes. -/
theorem justified_of_ofCandidate? {k : ℕ} {α : Float} {s : Suggestion Float}
    (any : 1 ≤ effort.probeSamples) (candidate : Candidate effort f.toCurve x k α)
    (found : ofCandidate? effort f x α = some s)
    (before : ∀ j < k, ∀ β, Candidate effort f.toCurve x j β → ofCandidate? effort f x β = none) :
    Justified effort f x s := by
  have stable : Stable effort f x α := by
    by_contra fails
    cases found.symm.trans ((ofCandidate?_eq_none any).mpr fails)
  rw [ofCandidate?, stableRadii?, if_pos ((isStable_iff any).mpr stable)] at found
  cases found
  exact {
    candidate := ⟨k, candidate, stable,
      fun j lt β earlier ↦ (ofCandidate?_eq_none any).mp (before j lt β earlier)⟩
    below := ⟨_, rfl, exists_reach any _ x _ _⟩
    above := ⟨_, rfl, exists_reach any _ x _ _⟩
    start := exists_flattest _ x _ _ _ }

/-- From a finite point a search gives what the first candidate gives that gives anything. -/
theorem search_eq (finite : Arith.isFinite x) :
    search effort f x =
      ((candidates (slopes f.toCurve
          (slopePoints x (effort.radius x) effort.slopeOffsets))).findSome?
        (ofCandidate? effort f x)).elim (.error (.noStableRegion x)) .ok := by
  rw [search, finite, if_neg (by decide)]
  dsimp only
  cases (candidates (slopes f.toCurve
      (slopePoints x (effort.radius x) effort.slopeOffsets))).findSome?
    (ofCandidate? effort f x) <;> rfl

/-- A search from a finite point finds nothing just if no candidate is stable; otherwise it finds a
suggestion, and what it finds is justified. -/
theorem search_justified (finite : Arith.isFinite x) (any : 1 ≤ effort.probeSamples)
    (f : Family Float) :
    (search effort f x = .error (.noStableRegion x) ↔
      ∀ k α, Candidate effort f.toCurve x k α → ¬ Stable effort f x α) ∧
      ((∃ k α, Candidate effort f.toCurve x k α ∧ Stable effort f x α) →
        ∃ s, search effort f x = .ok s ∧ Justified effort f x s) := by
  simp only [← ofCandidate?_eq_none any]
  rw [search_eq finite, ← findSome?_eq_none]
  cases found : (candidates (slopes f.toCurve (slopePoints x (effort.radius x)
      effort.slopeOffsets))).findSome? (ofCandidate? effort f x) with
  | none =>
      refine ⟨iff_of_true rfl rfl, ?_⟩
      rintro ⟨k, α, candidate, stable⟩
      have refused := findSome?_eq_none.mp found k α candidate
      exact absurd stable ((ofCandidate?_eq_none any).mp refused)
  | some s =>
      refine ⟨iff_of_false nofun nofun, fun _ ↦ ⟨s, rfl, ?_⟩⟩
      obtain ⟨k, α, candidate, result, before⟩ := exists_of_findSome? found
      exact justified_of_ofCandidate? any candidate result before

/-- The family of `x*x-2`. -/
def parabola : Family Float :=
  Expression.familyOfFits
    ⟨"x*x-2", ⟨[.var, .var, .binary .mul, .const 2, .binary .sub], 2⟩⟩ (by decide) (by decide)

/-- A search with few probes and few steps. -/
def brief : Effort Float :=
  { initialRadius := 0.25, slopeOffsets := 1, maxExpansions := 2, refineSteps := 2,
    probeSamples := 2, suggestSamples := 1 }

/-- A short search from a half, where the slope is one and the map `x - (x*x-2)` is flat.  The
radius above is doubled once; the one below is not doubled, but two halvings of the first step that
fails are accepted.  From zero the same search finds nothing, since a map that is flat on one side
of zero is steep on the other. -/
theorem search_justified_parabola :
    Arith.isFinite (0.5 : Float) ∧ Arith.isFinite (0 : Float) ∧ 1 ≤ brief.probeSamples ∧
      search brief parabola 0.5 = .ok ⟨0.5, 0.0625, 1, 1⟩ ∧
      Justified brief parabola 0.5 ⟨0.5, 0.0625, 1, 1⟩ ∧
      search brief parabola 0 = .error (.noStableRegion 0) ∧
      ∀ k α, Candidate brief parabola.toCurve 0 k α → ¬ Stable brief parabola 0 α := by
  have finite : Arith.isFinite (0.5 : Float) := by decide +kernel
  have finite' : Arith.isFinite (0 : Float) := by decide +kernel
  have any : 1 ≤ brief.probeSamples := by decide
  have found : search brief parabola 0.5 = .ok ⟨0.5, 0.0625, 1, 1⟩ := by decide +kernel
  have nothing : search brief parabola 0 = .error (.noStableRegion 0) := by decide +kernel
  obtain ⟨refused, justified⟩ := search_justified finite any parabola
  have stable : ∃ k α, Candidate brief parabola.toCurve 0.5 k α ∧ Stable brief parabola 0.5 α := by
    by_contra none
    push Not at none
    cases found.symm.trans (refused.mpr none)
  obtain ⟨s, found', rests⟩ := justified stable
  obtain rfl := Except.ok.inj (found.symm.trans found')
  exact ⟨finite, finite', any, found, rests, nothing,
    (search_justified finite' any parabola).1.mp nothing⟩

end ScalarSolve.Suggestion
