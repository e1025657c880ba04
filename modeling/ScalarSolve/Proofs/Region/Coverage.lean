import ScalarSolve.Proofs.Arith.Order
import ScalarSolve.Proofs.Expression.Curve
import ScalarSolve.Region.Bracket

/-!
# What a scan covers

A scan goes through its points once and carries no more than the sample before the present one.  All
the same, behind any number of points it has found what a look at all of them together would find:
one sample for every point with a value, and one bracket for every two neighbours with values that
change sign, in the order of the points.  The points may be any sequence; nothing is used of the way
in which a grid is computed.
-/

namespace ScalarSolve

open Formula

/-! ## Lists by number -/

/-- A list with one entry for each number that has one, in the order of the numbers. -/
def Enumerates {α : Type} (P : Nat → α → Prop) (as : List α) : Prop :=
  ∃ is : List Nat, is.Pairwise (· < ·) ∧ (∀ i, i ∈ is ↔ ∃ a, P i a) ∧ List.Forall₂ P is as

namespace Enumerates

variable {α : Type} {P Q : Nat → α → Prop} {as : List α}

theorem nil (none : ∀ i a, ¬ P i a) : Enumerates P [] :=
  ⟨[], .nil, fun i ↦ by simp [none], .nil⟩

theorem congr (h : Enumerates P as) (same : ∀ i a, Q i a ↔ P i a) : Enumerates Q as := by
  obtain rfl : Q = P := funext fun i ↦ funext fun a ↦ propext (same i a)
  exact h

/-- One more entry, for a number above all others. -/
theorem concat {n : Nat} {z : α} (h : Enumerates P as) (below : ∀ i a, P i a → i < n)
    (grown : ∀ i a, Q i a ↔ P i a ∨ i = n ∧ a = z) : Enumerates Q (as ++ [z]) := by
  obtain ⟨is, ascending, numbers, entries⟩ := h
  refine ⟨is ++ [n], ?_, ?_, ?_⟩
  · rw [List.pairwise_append]
    refine ⟨ascending, List.pairwise_singleton _ n, ?_⟩
    intro i mem j last
    obtain ⟨a, entry⟩ := (numbers i).mp mem
    rw [List.mem_singleton.mp last]
    exact below i a entry
  · intro i
    simp only [List.mem_append, List.mem_singleton, numbers, grown, exists_or, exists_and_left,
      exists_eq, and_true]
  · refine List.rel_append (entries.imp fun i a entry ↦ (grown i a).mpr (.inl entry)) ?_
    exact .cons ((grown n z).mpr (.inr ⟨rfl, rfl⟩)) .nil

theorem exists_of_mem (h : Enumerates P as) {a : α} (mem : a ∈ as) : ∃ i, P i a := by
  obtain ⟨is, -, -, entries⟩ := h
  induction entries with
  | nil => cases mem
  | cons entry _ ih =>
      rcases List.mem_cons.mp mem with rfl | later
      · exact ⟨_, entry⟩
      · exact ih later

/-- Entries are related in their order if the entries for any two numbers are. -/
theorem pairwise {R : α → α → Prop} (h : Enumerates P as)
    (related : ∀ i j a b, i < j → P i a → P j b → R a b) : as.Pairwise R := by
  obtain ⟨is, ascending, -, entries⟩ := h
  obtain ⟨length, entry⟩ := List.forall₂_iff_get.mp entries
  rw [List.pairwise_iff_getElem] at ascending ⊢
  intro m n ltM ltN lt
  exact related is[m] is[n] as[m] as[n] (ascending m n (by omega) (by omega) lt)
    (entry m (by omega) ltM) (entry n (by omega) ltN)

/-- Conversely so, as long as no number has two entries. -/
theorem related {R : α → α → Prop} (h : Enumerates P as)
    (unique : ∀ i a b, P i a → P i b → a = b) (pairs : as.Pairwise R) {i j : Nat} {a b : α}
    (lt : i < j) (entryI : P i a) (entryJ : P j b) : R a b := by
  obtain ⟨is, ascending, numbers, entries⟩ := h
  obtain ⟨length, entry⟩ := List.forall₂_iff_get.mp entries
  obtain ⟨m, ltM, rfl⟩ := List.mem_iff_getElem.mp ((numbers i).mpr ⟨a, entryI⟩)
  obtain ⟨n, ltN, rfl⟩ := List.mem_iff_getElem.mp ((numbers j).mpr ⟨b, entryJ⟩)
  obtain rfl := unique _ _ _ entryI (entry m ltM (by omega))
  obtain rfl := unique _ _ _ entryJ (entry n ltN (by omega))
  exact List.pairwise_iff_getElem.mp pairs m n _ _ (ascending.sortedLT.getElem_lt_getElem_iff.mp lt)

end Enumerates

/-! ## Points by number -/

variable {F : Type} [Arith F]

/-- One of two values is zero, or exactly one of them is negative. -/
def ChangesSign (y z : F) : Prop :=
  Arith.isZero y ∨ Arith.isZero z ∨
    Arith.isNegative y ∧ ¬ Arith.isNegative z ∨ ¬ Arith.isNegative y ∧ Arith.isNegative z

/-- The sample at the point with a number. -/
structure Sample.At (f : PartialMap F) (point : Nat → F) (i : Nat) (p : Sample F) : Prop where
  point_eq : p.x = point i
  value : f (point i) = .ok p.y

/-- The bracket from the point with a number to the one behind it. -/
structure Bracket.At (f : PartialMap F) (point : Nat → F) (i : Nat) (b : Bracket F) : Prop where
  left : b.a = point i
  right : b.b = point (i + 1)
  valueLeft : f (point i) = .ok b.fa
  valueRight : f (point (i + 1)) = .ok b.fb
  changes : ChangesSign b.fa b.fb

omit [Arith F] in
theorem Sample.at_iff {f : PartialMap F} {point : Nat → F} {i : Nat} {y : F}
    (value : f (point i) = .ok y) (p : Sample F) : p.At f point i ↔ p = ⟨point i, y⟩ := by
  constructor
  · obtain ⟨x, z⟩ := p
    rintro ⟨rfl, value'⟩
    rw [Except.ok.inj (value.symm.trans value')]
  · rintro rfl
    exact ⟨rfl, value⟩

namespace Bracket

theorem crosses_iff {y z : F} : crosses y z ↔ ChangesSign y z := by
  rw [crosses, ChangesSign, Bool.or_eq_true, Bool.or_eq_true, bne_iff_ne, or_assoc]
  cases Arith.isNegative y <;> cases Arith.isNegative z <;> simp

theorem between?_eq_some {p q : Sample F} {b : Bracket F} :
    between? p q = some b ↔ b = ⟨p.x, q.x, p.y, q.y⟩ ∧ ChangesSign p.y q.y := by
  rw [between?, ← crosses_iff]
  split
  · next crosses => simp [crosses, eq_comm]
  · next same => simp [same]

/-- A point without a value is behind a bracket or before it. -/
theorem At.outside {f : PartialMap F} {point : Nat → F} {i k : Nat} {b : Bracket F}
    (h : b.At f point i) {e : EvalError F} (undefined : f (point k) = .error e) :
    k < i ∨ i + 1 < k := by
  have notFirst : k ≠ i := by
    rintro rfl
    cases h.valueLeft.symm.trans undefined
  have notSecond : k ≠ i + 1 := by
    rintro rfl
    cases h.valueRight.symm.trans undefined
  omega

end Bracket

/-! ## Scans -/

namespace Scan

variable {f : PartialMap F} {point : Nat → F} {n : Nat} {state : Scan F × Option (Sample F)}

/-- What a scan holds behind the first `n` points. -/
structure Covers (f : PartialMap F) (point : Nat → F) (n : Nat)
    (state : Scan F × Option (Sample F)) : Prop where
  samples : Enumerates (fun i p ↦ i < n ∧ p.At f point i) state.1.samples.toList
  gaps : state.1.gaps = (List.range n).countP fun i ↦ !(f (point i)).isOk
  counted : state.1.samples.size + state.1.gaps = n
  brackets : Enumerates (fun i b ↦ i + 1 < n ∧ b.At f point i) state.1.brackets.toList
  previous : ∀ p, state.2 = some p ↔ ∃ i, n = i + 1 ∧ p.At f point i

theorem covers_empty : Covers f point 0 (empty, none) where
  samples := .nil fun _ _ ⟨lt, _⟩ ↦ absurd lt (Nat.not_lt_zero _)
  gaps := rfl
  counted := rfl
  brackets := .nil fun _ _ ⟨lt, _⟩ ↦ absurd lt (Nat.not_lt_zero _)
  previous _ := iff_of_false nofun fun ⟨_, zero, _⟩ ↦ nomatch zero

/-- With one more point there may be one more bracket, to that point. -/
theorem at_succ_iff {i : Nat} {b : Bracket F} :
    i + 1 < n + 1 ∧ b.At f point i ↔
      i + 1 < n ∧ b.At f point i ∨ n = i + 1 ∧ b.At f point i := by
  rw [← or_and_right, Nat.lt_succ_iff_lt_or_eq, eq_comm (a := n)]

namespace Covers

/-- A point without a value is a gap, and no bracket leads to it or from it. -/
theorem gap (h : Covers f point n state) {e : EvalError F} (undefined : f (point n) = .error e) :
    Covers f point (n + 1) (step f state (point n)) := by
  obtain ⟨s, previous⟩ := state
  simp only [step, undefined]
  refine ⟨h.samples.congr ?_, ?_, ?_, h.brackets.congr ?_, ?_⟩
  · intro i p
    constructor
    · rintro ⟨le, sample⟩
      refine ⟨lt_of_le_of_ne (Nat.le_of_lt_succ le) ?_, sample⟩
      rintro rfl
      cases sample.value.symm.trans undefined
    · exact fun ⟨lt, sample⟩ ↦ ⟨Nat.lt_succ_of_lt lt, sample⟩
  · rw [List.range_succ, List.countP_append, ← h.gaps, List.countP_singleton, undefined]
    rfl
  · have counted := h.counted
    dsimp only at counted ⊢
    omega
  · intro i b
    rw [at_succ_iff, or_iff_left]
    rintro ⟨rfl, bracket⟩
    cases bracket.valueRight.symm.trans undefined
  · intro p
    refine iff_of_false nofun ?_
    rintro ⟨i, last, sample⟩
    obtain rfl : n = i := Nat.succ.inj last
    cases sample.value.symm.trans undefined

/-- What is found between the sample before a point and the one there. -/
theorem between_iff (h : Covers f point n state) {y : F} (value : f (point n) = .ok y)
    (b : Bracket F) :
    state.2.bind (Bracket.between? · ⟨point n, y⟩) = some b ↔
      ∃ i, n = i + 1 ∧ b.At f point i := by
  rw [Option.bind_eq_some_iff]
  constructor
  · rintro ⟨p, known, found⟩
    obtain ⟨rfl, changes⟩ := Bracket.between?_eq_some.mp found
    obtain ⟨i, rfl, sample⟩ := (h.previous p).mp known
    exact ⟨i, rfl, sample.point_eq, rfl, sample.value, value, changes⟩
  · rintro ⟨i, rfl, bracket⟩
    obtain ⟨a, b, ya, yb⟩ := b
    obtain ⟨left, right, valueLeft, valueRight, changes⟩ := bracket
    dsimp only at left right valueLeft valueRight changes
    subst left right
    obtain rfl : y = yb := Except.ok.inj (value.symm.trans valueRight)
    refine ⟨⟨point i, ya⟩, (h.previous _).mpr ⟨i, rfl, rfl, valueLeft⟩, ?_⟩
    exact Bracket.between?_eq_some.mpr ⟨rfl, changes⟩

/-- A point with a value makes a bracket with the point before it if that has a value too and the
values change sign. -/
theorem brackets_sample (h : Covers f point n state) {y : F} (value : f (point n) = .ok y) :
    Enumerates (fun i b ↦ i + 1 < n + 1 ∧ b.At f point i)
      (step f state (point n)).1.brackets.toList := by
  have between := h.between_iff value
  obtain ⟨s, previous⟩ := state
  simp only [step, value]
  cases found : previous.bind (Bracket.between? · ⟨point n, y⟩) with
  | none =>
      refine h.brackets.congr fun i b ↦ ?_
      rw [at_succ_iff, or_iff_left]
      intro new
      cases found.symm.trans ((between b).mpr ⟨i, new⟩)
  | some b =>
      obtain ⟨i, rfl, bracket⟩ := (between b).mp found
      rw [Array.toList_push]
      refine h.brackets.concat (fun j _ ⟨lt, _⟩ ↦ Nat.lt_of_succ_lt_succ lt) fun j b' ↦ ?_
      rw [at_succ_iff]
      refine or_congr_right ⟨?_, ?_⟩
      · rintro ⟨⟨⟩, bracket'⟩
        have found' := (between b').mpr ⟨i, rfl, bracket'⟩
        exact ⟨rfl, (Option.some.inj (found.symm.trans found')).symm⟩
      · rintro ⟨rfl, rfl⟩
        exact ⟨rfl, bracket⟩

theorem sample (h : Covers f point n state) {y : F} (value : f (point n) = .ok y) :
    Covers f point (n + 1) (step f state (point n)) where
  samples := by
    simp only [step, value, Array.toList_push]
    refine h.samples.concat (fun _ _ ⟨lt, _⟩ ↦ lt) fun i p ↦ ?_
    rw [Nat.lt_succ_iff_lt_or_eq, or_and_right]
    refine or_congr_right (and_congr_right ?_)
    rintro rfl
    exact p.at_iff value
  gaps := by
    rw [List.range_succ, List.countP_append, ← h.gaps, List.countP_singleton, value]
    simp only [step, value]
    rfl
  counted := by
    have counted := h.counted
    simp only [step, value, Array.size_push]
    omega
  brackets := h.brackets_sample value
  previous p := by
    simp only [step, value, Option.some.injEq, Nat.add_right_cancel_iff, exists_eq_left']
    rw [p.at_iff value, eq_comm]

end Covers

/-- What a scan holds behind points of a sequence, whatever the sequence is. -/
theorem covers_foldl (f : PartialMap F) (point : Nat → F) (n : Nat) :
    Covers f point n (((List.range n).map point).foldl (step f) (empty, none)) := by
  induction n with
  | zero => exact covers_empty
  | succ n ih =>
      rw [List.range_succ, List.map_append, List.foldl_append]
      change Covers f point (n + 1) (step f _ (point n))
      cases value : f (point n) with
      | error e => exact ih.gap value
      | ok y => exact ih.sample value

variable {f : Curve F} {lo hi : F} {steps : Nat}

/-- Where its checks hold, a scan is that of its grid. -/
theorem bracket_eq_ok (finiteLo : Arith.isFinite lo) (finiteHi : Arith.isFinite hi)
    (ascending : ¬ Arith.le hi lo) (any : 1 ≤ steps) (few : steps ≤ maxScanSteps) :
    bracket f lo hi steps = .ok (along f.eval (Grid.points lo hi steps)) := by
  unfold bracket
  rw [finiteLo, finiteHi, if_neg (by decide), if_neg ascending, if_neg (by omega)]

/-- A scan between two finite numbers in ascending order, with an admitted number of steps, holds
just the samples at the points of its grid with a value and just the brackets between neighbours
with values that change sign, each of them once and in the order of the grid; all other points are
gaps, and no bracket spans one.  Of arithmetic only this is used, that a number is not both less
than another one and at least as great. -/
theorem bracket_exact (excludes : ∀ x y : F, Arith.lt x y → ¬ Arith.le y x)
    (finiteLo : Arith.isFinite lo) (finiteHi : Arith.isFinite hi) (ascending : Arith.lt lo hi)
    (any : 1 ≤ steps) (few : steps ≤ 100000) (f : Curve F) :
    ∃ s, bracket f lo hi steps = .ok s ∧
      Enumerates (fun i p ↦ i ≤ steps ∧ p.At f.eval (Grid.point lo hi steps) i)
        s.samples.toList ∧
      (s.gaps = (List.range (steps + 1)).countP fun i ↦
        !(f.eval (Grid.point lo hi steps i)).isOk) ∧
      s.samples.size + s.gaps = steps + 1 ∧
      Enumerates (fun i b ↦ i < steps ∧ b.At f.eval (Grid.point lo hi steps) i)
        s.brackets.toList ∧
      ∀ b ∈ s.brackets, ∃ i, b.At f.eval (Grid.point lo hi steps) i ∧
        ∀ k e, f.eval (Grid.point lo hi steps k) = .error e → k < i ∨ i + 1 < k := by
  have covers := covers_foldl f.eval (Grid.point lo hi steps) (steps + 1)
  refine ⟨_, bracket_eq_ok finiteLo finiteHi (excludes lo hi ascending) any few, ?_, covers.gaps,
    covers.counted, ?_, ?_⟩
  · exact covers.samples.congr fun i p ↦ and_congr_left' Nat.lt_succ_iff.symm
  · exact covers.brackets.congr fun i b ↦ and_congr_left' Nat.succ_lt_succ_iff.symm
  · intro b mem
    obtain ⟨i, -, bracket⟩ := covers.brackets.exists_of_mem (Array.mem_toList_iff.mpr mem)
    exact ⟨i, bracket, fun k e ↦ bracket.outside⟩

/-- The curve of `(x-1)/x`. -/
def quotient : Curve Float :=
  Expression.curveOfFits
    ⟨"(x-1)/x", ⟨[.var, .const 1, .binary .sub, .var, .binary .div], 2⟩⟩ (by decide)

/-- On doubles, a scan with a pole at its third point and a root at its last one: the values before
and behind the pole have different signs, but only the root is in a bracket. -/
theorem bracket_exact_quotient :
    Arith.isFinite (-1 : Float) ∧ Arith.isFinite (1 : Float) ∧ Arith.lt (-1 : Float) 1 ∧
      ∃ s, bracket quotient (-1) 1 4 = .ok s ∧ s.brackets = #[⟨0.5, 1, -1, 0⟩] ∧
        s.samples = #[⟨-1, 2⟩, ⟨-0.5, 3⟩, ⟨0.5, -1⟩, ⟨1, 0⟩] ∧ s.samples.size + s.gaps = 5 ∧
        Enumerates (fun i b ↦ i < 4 ∧ Bracket.At quotient.eval (Grid.point (-1) 1 4) i b)
          [⟨0.5, 1, -1, 0⟩] := by
  have finiteLo : Arith.isFinite (-1 : Float) := by decide +kernel
  have finiteHi : Arith.isFinite (1 : Float) := by decide +kernel
  have ascending : Arith.lt (-1 : Float) 1 := by decide +kernel
  have scanned : bracket quotient (-1) 1 4 =
      .ok ⟨#[⟨0.5, 1, -1, 0⟩], #[⟨-1, 2⟩, ⟨-0.5, 3⟩, ⟨0.5, -1⟩, ⟨1, 0⟩], 1⟩ := by
    decide +kernel
  have any : 1 ≤ 4 := by decide
  have few : 4 ≤ 100000 := by decide
  obtain ⟨s, scanned', -, -, counted, brackets, -⟩ := bracket_exact
    (fun _ _ ↦ Double.not_le_of_lt) finiteLo finiteHi ascending any few quotient
  obtain rfl := Except.ok.inj (scanned.symm.trans scanned')
  exact ⟨finiteLo, finiteHi, ascending, _, scanned, rfl, rfl, counted, brackets⟩

end Scan

end ScalarSolve
