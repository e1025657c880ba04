import Mathlib
import ScalarSolve.Arith.Double

/-!
# The order of doubles

Two doubles are compared by kind and sign first, then by exponent, then by mantissa.  This is the
order of their places in a linear order, where only what is not a number has no place.
-/

namespace ScalarSolve.Double

open Float.Model Float.Model.UnpackedFloat

/-- Where an unpacked double stands among the others. -/
def place : UnpackedFloat → Option (Int ×ₗ Int ×ₗ Int)
  | .notANumber => none
  | .infinity .negative => some (toLex (-2, toLex (0, 0)))
  | .finite .negative m e _ => some (toLex (-1, toLex (-e, -(m : Int))))
  | .zero _ => some (toLex (0, toLex (0, 0)))
  | .finite .positive m e _ => some (toLex (1, toLex (e, (m : Int))))
  | .infinity .positive => some (toLex (2, toLex (0, 0)))

theorem compare_neg_neg (a b : Int) : compare (-a) (-b) = (compare a b).swap := by
  rw [Int.compare_swap]
  rcases Int.lt_trichotomy a b with lt | rfl | gt
  · rw [Int.compare_eq_gt.mpr lt, Int.compare_eq_gt.mpr (Int.neg_lt_neg lt)]
  · rw [Int.compare_eq_eq.mpr rfl, Int.compare_eq_eq.mpr rfl]
  · rw [Int.compare_eq_lt.mpr gt, Int.compare_eq_lt.mpr (Int.neg_lt_neg gt)]

theorem compare_natCast (m m' : Nat) : compare (m : Int) m' = compare m m' := by
  simp only [compare, compareOfLessAndEq, Int.ofNat_lt, Nat.cast_inj]

/-- Unpacked doubles are compared by their places. -/
theorem compare_eq_place (a b : UnpackedFloat) :
    a.compare b = (place a).bind fun p ↦ (place b).map (compare p) := by
  rcases a with (_ | _) | _ | _ | ⟨(_ | _), m, e, _⟩ <;>
    rcases b with (_ | _) | _ | _ | ⟨(_ | _), m', e', _⟩ <;> try rfl
  -- Only numbers of one kind and sign take a look at their exponents.
  · change _ = some ((compare (-e) (-e')).then (compare (-(m : Int)) (-(m' : Int))))
    rw [compare_neg_neg, compare_neg_neg, compare_natCast, ← Ordering.swap_then]
    rfl
  · change _ = some ((compare e e').then (compare (m : Int) m'))
    rw [compare_natCast]
    rfl

theorem le_iff_place (a b : UnpackedFloat) :
    a.le b ↔ ∃ p q, place a = some p ∧ place b = some q ∧ p ≤ q := by
  rw [UnpackedFloat.le, compare_eq_place]
  cases place a <;> cases place b <;> simp [Ordering.isLE_iff_ne_gt, compare_gt_iff_gt]

theorem lt_iff_place (a b : UnpackedFloat) :
    a.lt b ↔ ∃ p q, place a = some p ∧ place b = some q ∧ p < q := by
  rw [UnpackedFloat.lt, compare_eq_place]
  cases place a <;> cases place b <;> simp [compare_lt_iff_lt]

/-- Numbers are equal if they have the same place, as the two zeros do. -/
theorem beq_iff_place (a b : UnpackedFloat) :
    a.beq b ↔ ∃ p, place a = some p ∧ place b = some p := by
  rw [UnpackedFloat.beq, compare_eq_place]
  cases place a <;> cases place b <;> simp [compare_eq_iff_eq]
  exact eq_comm

theorem le_iff_unpack {x y : Float} : Arith.le x y ↔ x.toModel.unpack.le y.toModel.unpack := by
  change decide (x.le y = true) = true ↔ _
  rw [decide_eq_true_iff]
  exact decide_eq_true_iff

theorem lt_iff_unpack {x y : Float} : Arith.lt x y ↔ x.toModel.unpack.lt y.toModel.unpack := by
  change decide (x.lt y = true) = true ↔ _
  rw [decide_eq_true_iff]
  exact decide_eq_true_iff

/-- Doubles are compared by their places. -/
theorem le_iff {x y : Float} : Arith.le x y ↔
    ∃ p q, place x.toModel.unpack = some p ∧ place y.toModel.unpack = some q ∧ p ≤ q := by
  rw [le_iff_unpack, le_iff_place]

theorem lt_iff {x y : Float} : Arith.lt x y ↔
    ∃ p q, place x.toModel.unpack = some p ∧ place y.toModel.unpack = some q ∧ p < q := by
  rw [lt_iff_unpack, lt_iff_place]

theorem eq_iff {x y : Float} : Arith.eq x y ↔
    ∃ p, place x.toModel.unpack = some p ∧ place y.toModel.unpack = some p := by
  rw [← beq_iff_place]
  rfl

/-- Comparison of doubles is transitive. -/
theorem le_trans {a b c : Float} (h : Arith.le a b) (h' : Arith.le b c) : Arith.le a c := by
  rw [le_iff] at *
  obtain ⟨p, q, placeA, placeB, le⟩ := h
  obtain ⟨q', r, placeB', placeC, le'⟩ := h'
  obtain rfl : q = q' := Option.some.inj (placeB.symm.trans placeB')
  exact ⟨p, r, placeA, placeC, le.trans le'⟩

theorem not_lt_of_lt {a b : Float} (h : Arith.lt a b) : ¬ Arith.lt b a := by
  rw [lt_iff] at *
  rintro ⟨q, p, placeB, placeA, before⟩
  obtain ⟨p', q', placeA', placeB', behind⟩ := h
  obtain rfl : p = p' := Option.some.inj (placeA.symm.trans placeA')
  obtain rfl : q = q' := Option.some.inj (placeB.symm.trans placeB')
  exact before.not_gt behind

theorem not_le_of_lt {a b : Float} (h : Arith.lt a b) : ¬ Arith.le b a := by
  obtain ⟨p, q, placeA, placeB, before⟩ := lt_iff.mp h
  rw [le_iff]
  rintro ⟨q', p', placeB', placeA', behind⟩
  obtain rfl : p = p' := Option.some.inj (placeA.symm.trans placeA')
  obtain rfl : q = q' := Option.some.inj (placeB.symm.trans placeB')
  exact before.not_ge behind

theorem eq_symm {a b : Float} (h : Arith.eq a b) : Arith.eq b a := by
  rw [eq_iff] at *
  obtain ⟨p, placeA, placeB⟩ := h
  exact ⟨p, placeB, placeA⟩

theorem eq_trans {a b c : Float} (h : Arith.eq a b) (h' : Arith.eq b c) : Arith.eq a c := by
  rw [eq_iff] at *
  obtain ⟨p, placeA, placeB⟩ := h
  obtain ⟨q, placeB', placeC⟩ := h'
  obtain rfl : p = q := Option.some.inj (placeB.symm.trans placeB')
  exact ⟨p, placeA, placeC⟩

theorem exists_place {u : UnpackedFloat} (finite : u.isFinite) : ∃ p, place u = some p := by
  cases u with
  | notANumber => cases finite
  | infinity s => cases finite
  | zero s => exact ⟨_, rfl⟩
  | finite s m e positive => cases s <;> exact ⟨_, rfl⟩

/-- Comparison of finite doubles is reflexive. -/
theorem le_self {x : Float} (finite : Arith.isFinite x) : Arith.le x x := by
  obtain ⟨p, placed⟩ := exists_place (u := x.toModel.unpack) finite
  exact le_iff.mpr ⟨p, p, placed, placed, le_rfl⟩

theorem le_of_lt {x y : Float} (h : Arith.lt x y) : Arith.le x y := by
  obtain ⟨p, q, placeX, placeY, lt⟩ := lt_iff.mp h
  exact le_iff.mpr ⟨p, q, placeX, placeY, lt.le⟩

theorem lt_of_le_of_lt {a b c : Float} (h : Arith.le a b) (h' : Arith.lt b c) : Arith.lt a c := by
  rw [le_iff] at h
  rw [lt_iff] at *
  obtain ⟨p, q, placeA, placeB, le⟩ := h
  obtain ⟨q', r, placeB', placeC, lt⟩ := h'
  obtain rfl : q = q' := Option.some.inj (placeB.symm.trans placeB')
  exact ⟨p, r, placeA, placeC, le.trans_lt lt⟩

theorem lt_of_lt_of_le {a b c : Float} (h : Arith.lt a b) (h' : Arith.le b c) : Arith.lt a c := by
  rw [le_iff] at h'
  rw [lt_iff] at *
  obtain ⟨p, q, placeA, placeB, lt⟩ := h
  obtain ⟨q', r, placeB', placeC, le⟩ := h'
  obtain rfl : q = q' := Option.some.inj (placeB.symm.trans placeB')
  exact ⟨p, r, placeA, placeC, lt.trans_le le⟩

/-- Of doubles that are numbers either is less than or equal to the other.  Those that are not
numbers are less than or equal to nothing, not even to themselves. -/
theorem le_of_not_lt_of_le_self {x y : Float} (numberX : Arith.le x x) (numberY : Arith.le y y)
    (h : ¬ Arith.lt x y) : Arith.le y x := by
  obtain ⟨p, -, placeX, -⟩ := le_iff.mp numberX
  obtain ⟨q, -, placeY, -⟩ := le_iff.mp numberY
  refine le_iff.mpr ⟨q, p, placeY, placeX, not_lt.mp fun lt ↦ h ?_⟩
  exact lt_iff.mpr ⟨p, q, placeX, placeY, lt⟩

/-- Of finite doubles either is less than or equal to the other. -/
theorem le_of_not_lt {x y : Float} (finiteX : Arith.isFinite x) (finiteY : Arith.isFinite y)
    (h : ¬ Arith.lt x y) : Arith.le y x :=
  le_of_not_lt_of_le_self (le_self finiteX) (le_self finiteY) h

theorem isFinite_of_unpacked_le {u v w : UnpackedFloat} (finiteU : u.isFinite)
    (finiteW : w.isFinite) (low : u.le v) (high : v.le w) : v.isFinite := by
  cases v with
  | zero | finite => rfl
  | notANumber => cases w <;> cases high
  | infinity s =>
      cases s
      · cases u with
        | infinity | notANumber => cases finiteU
        | zero => cases low
        | finite s' => cases s' <;> cases low
      · cases w with
        | infinity | notANumber => cases finiteW
        | zero => cases high
        | finite s' => cases s' <;> cases high

/-- What is neither below a finite double nor above one is finite. -/
theorem isFinite_of_le {lo hi x : Float} (finiteLo : Arith.isFinite lo)
    (finiteHi : Arith.isFinite hi) (low : Arith.le lo x) (high : Arith.le x hi) :
    Arith.isFinite x :=
  isFinite_of_unpacked_le finiteLo finiteHi (le_iff_unpack.mp low) (le_iff_unpack.mp high)

/-- A double that equals zero is one of the two zeros. -/
theorem unpack_of_isZero {x : Float} (zero : Arith.isZero x) : ∃ s, x.toModel.unpack = .zero s := by
  obtain ⟨p, placed, middle⟩ := eq_iff.mp zero
  obtain rfl : toLex (0, toLex (0, 0)) = p := Option.some.inj middle
  cases unpacked : x.toModel.unpack with
  | zero s => exact ⟨s, rfl⟩
  | notANumber =>
      rw [unpacked] at placed
      cases placed
  | infinity s =>
      rw [unpacked] at placed
      cases s <;> cases placed
  | finite s m e positive =>
      rw [unpacked] at placed
      cases s <;> cases placed

/-- Zeros are within every positive distance of zero. -/
theorem abs_le_of_isZero {x d : Float} (zero : Arith.isZero x) (positive : Arith.isPositive d) :
    Arith.le (Arith.abs x) d := by
  obtain ⟨s, unpacked⟩ := unpack_of_isZero zero
  have abs : (Arith.abs x).toModel.unpack = (Arith.zero : Float).toModel.unpack := by
    change (Float.Model.pack x.toModel.unpack.abs).unpack = _
    rw [unpacked]
    rfl
  obtain ⟨p, q, placeZero, placeD, before⟩ := lt_iff.mp positive
  exact le_iff.mpr ⟨p, q, abs ▸ placeZero, placeD, before.le⟩

/-- What is not a number is at no distance from zero. -/
theorem not_abs_nan_le (x : Float) : ¬ Arith.le (Arith.abs Arith.nan) x := by
  rw [le_iff]
  rintro ⟨p, -, placed, -⟩
  have nowhere : place (Arith.abs (Arith.nan : Float)).toModel.unpack = none := by decide +kernel
  cases nowhere.symm.trans placed

/-! ## The lesser and the greater of two doubles -/

theorem isNaN_of_isFinite {x : Float} (finite : Arith.isFinite x) : Arith.isNaN x = false := by
  obtain ⟨p, placed⟩ := exists_place (u := x.toModel.unpack) finite
  rw [Arith.isNaN, eq_iff.mpr ⟨p, placed, placed⟩]
  rfl

variable {x y : Float}

theorem min_eq (finiteX : Arith.isFinite x) (y : Float) :
    Arith.min x y = if Arith.lt y x then y else x := by
  rw [Arith.min, isNaN_of_isFinite finiteX, if_neg Bool.false_ne_true]

theorem max_eq (finiteX : Arith.isFinite x) (y : Float) :
    Arith.max x y = if Arith.lt x y then y else x := by
  rw [Arith.max, isNaN_of_isFinite finiteX, if_neg Bool.false_ne_true]

theorem min_le_fst (finiteX : Arith.isFinite x) (y : Float) : Arith.le (Arith.min x y) x := by
  rw [min_eq finiteX]
  split
  · next lt => exact le_of_lt lt
  · exact le_self finiteX

theorem min_le_snd (finiteX : Arith.isFinite x) (finiteY : Arith.isFinite y) :
    Arith.le (Arith.min x y) y := by
  rw [min_eq finiteX]
  split
  · exact le_self finiteY
  · next ge => exact le_of_not_lt finiteY finiteX ge

theorem fst_le_max (finiteX : Arith.isFinite x) (y : Float) : Arith.le x (Arith.max x y) := by
  rw [max_eq finiteX]
  split
  · next lt => exact le_of_lt lt
  · exact le_self finiteX

theorem snd_le_max (finiteX : Arith.isFinite x) (finiteY : Arith.isFinite y) :
    Arith.le y (Arith.max x y) := by
  rw [max_eq finiteX]
  split
  · exact le_self finiteY
  · next ge => exact le_of_not_lt finiteX finiteY ge

theorem isFinite_min (finiteX : Arith.isFinite x) (finiteY : Arith.isFinite y) :
    Arith.isFinite (Arith.min x y) := by
  rw [min_eq finiteX]
  split <;> assumption

theorem isFinite_max (finiteX : Arith.isFinite x) (finiteY : Arith.isFinite y) :
    Arith.isFinite (Arith.max x y) := by
  rw [max_eq finiteX]
  split <;> assumption

theorem min_of_lt (finiteX : Arith.isFinite x) (lt : Arith.lt x y) : Arith.min x y = x := by
  rw [min_eq finiteX, if_neg (not_lt_of_lt lt)]

theorem max_of_lt (finiteX : Arith.isFinite x) (lt : Arith.lt x y) : Arith.max x y = y := by
  rw [max_eq finiteX, if_pos lt]

theorem min_of_gt (finiteX : Arith.isFinite x) (gt : Arith.lt y x) : Arith.min x y = y := by
  rw [min_eq finiteX, if_pos gt]

theorem max_of_gt (finiteX : Arith.isFinite x) (gt : Arith.lt y x) : Arith.max x y = x := by
  rw [max_eq finiteX, if_neg (not_lt_of_lt gt)]

/-- Of two finite doubles that are not equal one is less than the other. -/
theorem lt_or_lt_of_ne (finiteX : Arith.isFinite x) (finiteY : Arith.isFinite y)
    (apart : ¬ Arith.eq x y) : Arith.lt x y ∨ Arith.lt y x := by
  obtain ⟨p, placeX⟩ := exists_place (u := x.toModel.unpack) finiteX
  obtain ⟨q, placeY⟩ := exists_place (u := y.toModel.unpack) finiteY
  rcases lt_trichotomy p q with lt | rfl | gt
  · exact .inl (lt_iff.mpr ⟨p, q, placeX, placeY, lt⟩)
  · exact absurd (eq_iff.mpr ⟨p, placeX, placeY⟩) apart
  · exact .inr (lt_iff.mpr ⟨q, p, placeY, placeX, gt⟩)

end ScalarSolve.Double
