import ScalarSolve.Proofs.Solve.Trace

/-!
# The recurrence of the secant method

The points of a run are two seeds and then what the line through the last two of them leads to, as
far as such lines go.  A loop carries these two points with their values beside its log; they
*track* the log as long as they are its last two points and have the values that the function has
there. The second seed counts as a step but is none of the recurrence: its distance from the first
one is never tested.
-/

namespace ScalarSolve.Secant

open Formula

variable {F : Type} [Arith F]

/-! ## Steps -/

/-- There is a value at the point, and it is not close enough to zero. -/
def Away (l : Limits F) (f : PartialMap F) (t : F) : Prop :=
  ∃ y, f t = .ok y ∧ ¬ l.reached (Arith.abs y)

/-- The line through the function at two points leads to a third one, which is finite. -/
def Step (f : PartialMap F) (s t u : F) : Prop :=
  ∃ y z, f s = .ok y ∧ f t = .ok z ∧ ¬ Arith.isZero (z - y) ∧
    u = t - z * (t - s) / (z - y) ∧ Arith.isFinite u

/-- Why the line leads nowhere. -/
inductive Stuck (f : PartialMap F) (s t : F) : Breakdown F → Prop
  | flat {y z : F} (first : f s = .ok y) (second : f t = .ok z) (zero : Arith.isZero (z - y)) :
      Stuck f s t (.flatSecant s t)
  | notFinite {y z : F} (first : f s = .ok y) (second : f t = .ok z)
      (steep : ¬ Arith.isZero (z - y))
      (far : ¬ Arith.isFinite (t - z * (t - s) / (z - y))) : Stuck f s t .secantNotFinite

/-- A point is seen with the value that the function has there. -/
def Sighting.Of (f : PartialMap F) (p : Sighting F) : Prop := f p.x = .ok p.y

variable {l : Limits F} {f : PartialMap F} {p q : Sighting F} {y z : F} {why : Breakdown F}

theorem step_of_next (first : p.Of f) (second : q.Of f) (h : next p q = .ok z) :
    Step f p.x q.x z := by
  unfold next at h
  dsimp only at h
  split at h
  · cases h
  · next steep =>
      split at h
      · next finite =>
          cases h
          exact ⟨p.y, q.y, first, second, steep, rfl, finite⟩
      · cases h

theorem stuck_of_next (first : p.Of f) (second : q.Of f) (h : next p q = .error why) :
    Stuck f p.x q.x why := by
  unfold next at h
  dsimp only at h
  split at h
  · next zero =>
      cases h
      exact .flat first second zero
  · next steep =>
      split at h
      · cases h
      · next far =>
          cases h
          exact .notFinite first second steep far

/-! ## Traces -/

/-- The points of a search: the last of them may be close enough to a root, or to the one before it,
but none of the others. -/
structure Traced (l : Limits F) (f : PartialMap F) (x₁ : F) (ts : List F) : Prop where
  second : ∀ t, ts[1]? = some t → t = x₁
  steps : ∀ i s t u, ts[i]? = some s → ts[i + 1]? = some t → ts[i + 2]? = some u → Step f s t u
  away : ∀ i t, i + 1 < ts.length → ts[i]? = some t → Away l f t
  long : ∀ i t u, i + 3 < ts.length → ts[i + 1]? = some t → ts[i + 2]? = some u →
    ¬ l.reached (Arith.abs (u - t))

/-- The log of a search whose last two points are these sightings. -/
structure Tracks (l : Limits F) (f : PartialMap F) (x₀ x₁ : F) (left : Nat) (p q : Sighting F)
    (xs : Iterates F) : Prop where
  underway : xs.Underway l x₀ left
  traced : Traced l f x₁ xs.trace
  before : ∃ i, xs.count = i + 1 ∧ xs.trace[i]? = some p.x
  last : xs.last = q.x
  first : p.Of f
  second : q.Of f
  away : ¬ l.reached (Arith.abs q.y)
  long : 2 ≤ xs.count → ¬ l.reached xs.delta

variable {x₀ x₁ : F} {left : Nat} {xs : Iterates F}

namespace Tracks

theorem getElem?_last (h : Tracks l f x₀ x₁ left p q xs) : xs.trace[xs.count]? = some q.x := by
  rw [Iterates.getElem?_last, h.last]

theorem step_accept (h : Tracks l f x₀ x₁ left p q xs) (next : next p q = .ok z) {i : Nat}
    {s t u : F} (first : (xs.accept z).trace[i]? = some s)
    (second : (xs.accept z).trace[i + 1]? = some t) (third : (xs.accept z).trace[i + 2]? = some u) :
    Step f s t u := by
  obtain ⟨k, count, before⟩ := h.before
  rcases Iterates.getElem?_accept_eq_some third with ⟨le, third⟩ | ⟨new, rfl⟩
  · rw [Iterates.getElem?_accept_of_le (by omega)] at first second
    exact h.traced.steps i s t u first second third
  · rw [Iterates.getElem?_accept_of_le (by omega)] at first second
    obtain rfl : i = k := by omega
    obtain rfl : p.x = s := Option.some.inj (before.symm.trans first)
    obtain rfl : q.x = t := Option.some.inj ((count ▸ h.getElem?_last).symm.trans second)
    exact step_of_next h.first h.second next

/-- The point that was the last one so far is away from a root, too. -/
theorem away_accept (h : Tracks l f x₀ x₁ left p q xs) {i : Nat} {t : F}
    (lt : i + 1 < (xs.accept z).trace.length) (here : (xs.accept z).trace[i]? = some t) :
    Away l f t := by
  rw [Iterates.length_trace, Iterates.count_accept] at lt
  rw [Iterates.getElem?_accept_of_le (by omega)] at here
  rcases Nat.lt_or_eq_of_le (Nat.le_of_lt_succ (Nat.lt_of_succ_lt_succ lt)) with before | rfl
  · refine h.traced.away i t ?_ here
    rw [Iterates.length_trace]
    omega
  · obtain rfl : q.x = t := Option.some.inj (h.getElem?_last.symm.trans here)
    exact ⟨q.y, h.second, h.away⟩

theorem long_accept (h : Tracks l f x₀ x₁ left p q xs) {i : Nat} {t u : F}
    (lt : i + 3 < (xs.accept z).trace.length) (here : (xs.accept z).trace[i + 1]? = some t)
    (next : (xs.accept z).trace[i + 2]? = some u) : ¬ l.reached (Arith.abs (u - t)) := by
  rw [Iterates.length_trace, Iterates.count_accept] at lt
  rw [Iterates.getElem?_accept_of_le (by omega)] at here next
  rcases Nat.lt_or_eq_of_le (show i + 2 ≤ xs.count by omega) with before | last
  · refine h.traced.long i t u ?_ here next
    rw [Iterates.length_trace]
    omega
  · obtain rfl : q.x = u := Option.some.inj ((last ▸ h.getElem?_last).symm.trans next)
    have moved := h.underway.delta_eq last.symm here
    rw [h.last] at moved
    rw [← moved]
    exact h.long (by omega)

/-- The third point, on the line through the last two. -/
theorem traced_accept (h : Tracks l f x₀ x₁ left p q xs) (next : next p q = .ok z) :
    Traced l f x₁ (xs.accept z).trace where
  second t here := by
    obtain ⟨k, count, -⟩ := h.before
    rw [Iterates.getElem?_accept_of_le (by omega)] at here
    exact h.traced.second t here
  steps _ _ _ _ := h.step_accept next
  away _ _ := h.away_accept
  long _ _ _ := h.long_accept

end Tracks

/-! ## Ends -/

/-- A run from two seeds goes by the recurrence and ends for what is the case at its root. -/
structure Recurrence (l : Limits F) (f : PartialMap F) (x₀ x₁ : F) (r : Run F) : Prop
    extends r.Logged x₀, Traced l f x₁ r.trace where
  converged : r.termination = .converged ↔ ∃ y, f r.root = .ok y ∧
    (l.reached (Arith.abs y) ∨ 2 ≤ r.iterations ∧ l.reached r.delta)
  exhausted : ∀ n, r.termination = .exhausted n ↔ n = l.maxIterations ∧
    r.iterations = l.maxIterations ∧ (∃ y, f r.root = .ok y) ∧ r.termination ≠ .converged
  diverged : ∀ why, r.termination = .diverged why →
    (∃ e, f r.root = .error e ∧ why = .undefined e) ∨
      ∃ i s, r.iterations = i + 1 ∧ r.trace[i]? = some s ∧ Stuck f s r.root why
  residual : ∀ y, f r.root = .ok y → r.residual = y
  undefined : ∀ e, f r.root = .error e → r.residual = Arith.nan

theorem recurrence_undefined {e : EvalError F} (underway : xs.Underway l x₀ left)
    (traced : Traced l f x₁ xs.trace) (value : f xs.last = .error e) :
    Recurrence l f x₀ x₁ (xs.undefined e) where
  toLogged := underway.logged
  toTraced := traced
  converged := by
    refine iff_of_false nofun ?_
    rintro ⟨y, value', -⟩
    cases value.symm.trans value'
  exhausted n := by
    refine iff_of_false nofun ?_
    rintro ⟨-, -, ⟨y, value'⟩, -⟩
    cases value.symm.trans value'
  diverged := by
    rintro _ ⟨⟩
    exact .inl ⟨e, value, rfl⟩
  residual y value' := by cases value.symm.trans value'
  undefined _ _ := rfl

theorem recurrence_converged (underway : xs.Underway l x₀ left)
    (traced : Traced l f x₁ xs.trace) (value : f xs.last = .ok y)
    (near : l.reached (Arith.abs y) ∨ 2 ≤ xs.count ∧ l.reached xs.delta) :
    Recurrence l f x₀ x₁ (xs.converged y) where
  toLogged := underway.logged
  toTraced := traced
  converged := iff_of_true rfl ⟨y, value, near⟩
  exhausted n := iff_of_false nofun fun ⟨_, _, _, other⟩ ↦ other rfl
  diverged := nofun
  residual y' value' := Except.ok.inj (value.symm.trans value')
  undefined e value' := by cases value.symm.trans value'

theorem Tracks.value_last (h : Tracks l f x₀ x₁ left p q xs) : f xs.last = .ok q.y := by
  rw [h.last]
  exact h.second

/-- Neither test holds for the last two points. -/
theorem Tracks.not_near (h : Tracks l f x₀ x₁ left p q xs) :
    ¬ ∃ y, f xs.last = .ok y ∧ (l.reached (Arith.abs y) ∨ 2 ≤ xs.count ∧ l.reached xs.delta) := by
  rintro ⟨y, value, near⟩
  obtain rfl : q.y = y := Except.ok.inj (h.value_last.symm.trans value)
  rcases near with near | ⟨moves, short⟩
  · exact h.away near
  · exact h.long moves short

theorem Tracks.recurrence_diverged (h : Tracks l f x₀ x₁ (left + 1) p q xs)
    (stuck : Stuck f p.x xs.last why) : Recurrence l f x₀ x₁ (xs.diverged why q.y) where
  toLogged := h.underway.logged
  toTraced := h.traced
  converged := iff_of_false nofun h.not_near
  exhausted n := iff_of_false nofun fun ⟨_, spent, _⟩ ↦ h.underway.count_lt.ne spent
  diverged := by
    rintro _ ⟨⟩
    obtain ⟨i, count, before⟩ := h.before
    exact .inr ⟨i, p.x, count, before, stuck⟩
  residual y value := Except.ok.inj (h.value_last.symm.trans value)
  undefined e value := by cases h.value_last.symm.trans value

theorem Tracks.recurrence_exhausted (h : Tracks l f x₀ x₁ 0 p q xs) :
    Recurrence l f x₀ x₁ (xs.exhausted l.maxIterations (.ok q.y)) where
  toLogged := h.underway.logged
  toTraced := h.traced
  converged := iff_of_false nofun h.not_near
  exhausted n := by
    constructor
    · rintro ⟨⟩
      exact ⟨rfl, h.underway.budget, ⟨q.y, h.value_last⟩, nofun⟩
    · rintro ⟨rfl, -⟩
      rfl
  diverged := nofun
  residual y value := Except.ok.inj (h.value_last.symm.trans value)
  undefined e value := by cases h.value_last.symm.trans value

/-! ## Searches -/

theorem Tracks.recurrence_iterate : ∀ {left : Nat} {p q : Sighting F} {xs : Iterates F},
    Tracks l f x₀ x₁ left p q xs → Recurrence l f x₀ x₁ (iterate l f left p q xs) := by
  intro left
  induction left with
  | zero => exact fun h ↦ h.recurrence_exhausted
  | succ left ih =>
      intro p q xs h
      unfold iterate
      cases after : next p q with
      | error why =>
          refine h.recurrence_diverged ?_
          rw [h.last]
          exact stuck_of_next h.first h.second after
      | ok z =>
          have underway := h.underway.accept z
          have traced := h.traced_accept after
          dsimp only
          cases value : f z with
          | error e => exact recurrence_undefined underway traced value
          | ok y =>
              obtain ⟨k, count, -⟩ := h.before
              dsimp only
              split
              · next near =>
                  rw [Bool.or_eq_true] at near
                  refine recurrence_converged underway traced value (near.imp_right fun short ↦ ?_)
                  exact ⟨by rw [Iterates.count_accept, count]; omega, short⟩
              · next far =>
                  rw [Bool.or_eq_true, not_or] at far
                  refine ih ⟨underway, traced, ?_, rfl, h.second, value, far.1, fun _ ↦ far.2⟩
                  refine ⟨k + 1, by rw [Iterates.count_accept, count], ?_⟩
                  rw [Iterates.getElem?_accept_of_le count.ge, ← count, Iterates.getElem?_last,
                    h.last]

theorem traced_start (x₀ : F) : Traced l f x₁ (Iterates.start x₀).trace where
  second _ none := by simp at none
  steps _ _ _ _ _ none := by simp at none
  away _ _ lt := by simp at lt
  long _ _ _ lt := by simp at lt

/-- Two seeds, of which the first is no root. -/
theorem traced_seeds (away : Away l f x₀) :
    Traced l f x₁ ((Iterates.start x₀).accept x₁).trace where
  second t here := (Option.some.inj here).symm
  steps _ _ _ _ _ _ none := by simp at none
  away i t lt here := by
    obtain rfl : i = 0 := Nat.lt_one_iff.mp (Nat.lt_of_succ_lt_succ lt)
    obtain rfl : x₀ = t := Option.some.inj here
    exact away
  long i _ _ lt := absurd lt (Nat.not_lt.mpr (show 2 ≤ i + 3 by omega))

theorem recurrence_outcome (valid : l.Valid) (f : PartialMap F) (x₀ x₁ : F) :
    Recurrence l f x₀ x₁ (outcome l f x₀ x₁) := by
  unfold outcome
  cases value₀ : f x₀ with
  | error e =>
      exact recurrence_undefined (Iterates.underway_start valid x₀) (traced_start x₀) value₀
  | ok y₀ =>
      dsimp only
      split
      · next near =>
          exact recurrence_converged (Iterates.underway_start valid x₀) (traced_start x₀) value₀
            (.inl near)
      · next away₀ =>
          have underway := Iterates.underway_accept_start valid x₀ x₁
          have traced : Traced l f x₁ ((Iterates.start x₀).accept x₁).trace :=
            traced_seeds ⟨y₀, value₀, away₀⟩
          unfold fromSeeds
          cases value₁ : f x₁ with
          | error e => exact recurrence_undefined underway traced value₁
          | ok y₁ =>
              dsimp only
              split
              · next near => exact recurrence_converged underway traced value₁ (.inl near)
              · next away₁ =>
                  refine Tracks.recurrence_iterate ?_
                  exact ⟨underway, traced, ⟨0, rfl, rfl⟩, rfl, value₀, value₁, away₁, nofun⟩

/-- A valid search from finite seeds has a run, which goes by the recurrence: as long as neither
test holds and the line through the last two points leads on, and no further. -/
theorem findRoot_recurrence (valid : l.Valid) (finite₀ : Arith.isFinite x₀)
    (finite₁ : Arith.isFinite x₁) (f : PartialMap F) :
    ∃ r, findRoot l f x₀ x₁ = .ok r ∧ Recurrence l f x₀ x₁ r := by
  have ran : findRoot l f x₀ x₁ = .ok (outcome l f x₀ x₁) :=
    findRoot_eq_ok.mpr ⟨valid, finite₀, finite₁, rfl⟩
  exact ⟨_, ran, recurrence_outcome valid f x₀ x₁⟩

/-- On doubles, the line through two points of a line leads to its root, which is tested though
there are no iterations left. -/
theorem findRoot_recurrence_line :
    let f : PartialMap Float := fun x ↦ .ok (x - 1)
    Limits.Valid (⟨0.125, 2⟩ : Limits Float) ∧ Arith.isFinite (3 : Float) ∧
      Arith.isFinite (2 : Float) ∧ ∃ r, findRoot ⟨0.125, 2⟩ f 3 2 = .ok r ∧ r.trace = [3, 2, 1] ∧
        Step f 3 2 1 ∧ Away ⟨0.125, 2⟩ f 2 ∧ ∃ y, f r.root = .ok y ∧
          ((⟨0.125, 2⟩ : Limits Float).reached (Arith.abs y) ∨
            2 ≤ r.iterations ∧ (⟨0.125, 2⟩ : Limits Float).reached r.delta) := by
  intro f
  have valid : Limits.Valid (⟨0.125, 2⟩ : Limits Float) :=
    ⟨by decide +kernel, by decide, by decide⟩
  have finite₀ : Arith.isFinite (3 : Float) := by decide +kernel
  have finite₁ : Arith.isFinite (2 : Float) := by decide +kernel
  have ran : findRoot ⟨0.125, 2⟩ f 3 2 = .ok ⟨1, 0, 1, 2, [3, 2, 1], .converged⟩ := by
    decide +kernel
  obtain ⟨r, ran', recurrence⟩ := findRoot_recurrence valid finite₀ finite₁ f
  obtain rfl := Except.ok.inj (ran.symm.trans ran')
  exact ⟨valid, finite₀, finite₁, _, ran, rfl, recurrence.steps 0 3 2 1 rfl rfl rfl,
    recurrence.away 1 2 (by decide) rfl, recurrence.converged.mp rfl⟩

end ScalarSolve.Secant
