import Mathlib

/-!
# Rounding to 53 binary digits

Rounding takes a rational number to the nearest one of 53 binary digits, none of them behind the
last place of doubles, and to the one with an even last digit if two are equally near.  It keeps the
order and leaves alone what has no more digits.  How great a number may be is not a matter of
rounding.
-/

namespace ScalarSolve.Double

/-! ## Integers -/

/-- The integer nearest to a number, the even one if there are two. -/
def nearestInt (x : ℚ) : ℤ :=
  if Int.fract x < 1 / 2 then ⌊x⌋
  else if 1 / 2 < Int.fract x then ⌊x⌋ + 1
  else ⌊x⌋ + ⌊x⌋ % 2

theorem abs_nearestInt_sub_le (x : ℚ) : |nearestInt x - x| ≤ 1 / 2 := by
  have split : (⌊x⌋ : ℚ) + Int.fract x = x := Int.floor_add_fract x
  have below := Int.fract_nonneg x
  have above := Int.fract_lt_one x
  unfold nearestInt
  rw [abs_le]
  split_ifs with low high
  · constructor <;> linarith
  · push_cast
    constructor <;> linarith
  · rcases Int.emod_two_eq_zero_or_one ⌊x⌋ with even | odd
    · rw [even]
      push_cast
      constructor <;> linarith
    · rw [odd]
      push_cast
      constructor <;> linarith

/-- No integer is nearer. -/
theorem abs_nearestInt_sub_le_of_int (x : ℚ) (n : ℤ) : |nearestInt x - x| ≤ |n - x| := by
  by_cases same : n = nearestInt x
  · rw [same]
  · have apart : (1 : ℚ) ≤ |(n : ℚ) - nearestInt x| := by
      exact_mod_cast Int.one_le_abs (sub_ne_zero.mpr same)
    have near := abs_nearestInt_sub_le x
    have triangle := abs_sub_le (n : ℚ) x (nearestInt x)
    rw [abs_sub_comm x] at triangle
    linarith

theorem le_nearestInt {k : ℤ} {x : ℚ} (le : k ≤ x) : k ≤ nearestInt x := by
  by_contra lt
  have step : (nearestInt x : ℚ) + 1 ≤ k := by exact_mod_cast Int.add_one_le_iff.mpr (not_le.mp lt)
  have near := neg_le_of_abs_le (abs_nearestInt_sub_le x)
  linarith

theorem nearestInt_intCast (n : ℤ) : nearestInt n = n := by
  have none : Int.fract (n : ℚ) < 1 / 2 := by
    rw [Int.fract_intCast]
    norm_num
  rw [nearestInt, if_pos none, Int.floor_intCast]

theorem nearestInt_add {n : ℤ} {r : ℚ} (nonneg : 0 ≤ r) (lt : r < 1) :
    nearestInt (n + r) = if r < 1 / 2 then n else if 1 / 2 < r then n + 1 else n + n % 2 := by
  have floor : ⌊(n + r : ℚ)⌋ = n := by
    rw [Int.floor_intCast_add, Int.floor_eq_zero_iff.mpr ⟨nonneg, lt⟩, add_zero]
  rw [nearestInt, Int.fract, floor, add_sub_cancel_left]

theorem nearestInt_neg (x : ℚ) : nearestInt (-x) = -nearestInt x := by
  by_cases whole : Int.fract x = 0
  · obtain ⟨n, rfl⟩ : ∃ n : ℤ, (n : ℚ) = x := ⟨⌊x⌋, by rw [← Int.self_sub_fract, whole, sub_zero]⟩
    rw [← Int.cast_neg, nearestInt_intCast, nearestInt_intCast]
  · have fract : Int.fract (-x) = 1 - Int.fract x := Int.fract_neg whole
    have floor : ⌊-x⌋ = -⌊x⌋ - 1 := by
      have split := Int.floor_add_fract x
      have split' := Int.floor_add_fract (-x)
      have eq : (⌊-x⌋ : ℚ) = -⌊x⌋ - 1 := by linarith
      exact_mod_cast eq
    unfold nearestInt
    rw [fract, floor]
    rcases lt_trichotomy (Int.fract x) (1 / 2) with low | tie | high
    · rw [if_neg (by linarith), if_pos (by linarith), if_pos low]
      ring
    · rw [tie]
      norm_num
      omega
    · rw [if_pos (by linarith), if_neg (by linarith), if_pos high]
      ring

/-! ## Numbers -/

/-- The place of the last of 53 binary digits, which for small numbers is a fixed one. -/
def lastPlace (q : ℚ) : ℤ := max (Int.log 2 |q| - 52) (-1074)

/-- A number of 53 binary digits, none of them behind the last place of doubles.  Such a number is a
double unless it is too great. -/
def Representable (q : ℚ) : Prop := ∃ m e : ℤ, |m| < 2 ^ 53 ∧ -1074 ≤ e ∧ q = m * 2 ^ e

/-- The representable number nearest to another number, the one with an even last digit if there
are two. -/
def round (q : ℚ) : ℚ := nearestInt (q / 2 ^ lastPlace q) * 2 ^ lastPlace q

theorem two_zpow_pos (e : ℤ) : (0 : ℚ) < 2 ^ e := zpow_pos two_pos e

theorem zpow_log_le {q : ℚ} (nonzero : q ≠ 0) : (2 : ℚ) ^ Int.log 2 |q| ≤ |q| :=
  Int.zpow_log_le_self one_lt_two (abs_pos.mpr nonzero)

theorem lt_zpow_log (q : ℚ) : |q| < (2 : ℚ) ^ (Int.log 2 |q| + 1) :=
  Int.lt_zpow_succ_log_self one_lt_two |q|

/-- Seen from its last place, a number has no more than 53 binary digits before the point. -/
theorem abs_div_lastPlace_lt (q : ℚ) : |q / 2 ^ lastPlace q| < 2 ^ 53 := by
  rw [abs_div, abs_of_pos (two_zpow_pos _), div_lt_iff₀ (two_zpow_pos _)]
  refine (lt_zpow_log q).trans_le ?_
  rw [← zpow_natCast, ← zpow_add₀ two_ne_zero]
  refine zpow_le_zpow_right₀ one_le_two ?_
  unfold lastPlace
  push_cast
  omega

theorem abs_nearestInt_le (q : ℚ) : |nearestInt (q / 2 ^ lastPlace q)| ≤ 2 ^ 53 := by
  have near := abs_nearestInt_sub_le (q / 2 ^ lastPlace q)
  have bound := abs_div_lastPlace_lt q
  have triangle :=
    abs_sub_abs_le_abs_sub (nearestInt (q / 2 ^ lastPlace q) : ℚ) (q / 2 ^ lastPlace q)
  have less : (|nearestInt (q / 2 ^ lastPlace q)| : ℚ) < 2 ^ 53 + 1 := by linarith
  exact Int.lt_add_one_iff.mp (by exact_mod_cast less)

theorem Representable.neg {q : ℚ} (h : Representable q) : Representable (-q) := by
  obtain ⟨m, e, small, place, rfl⟩ := h
  exact ⟨-m, e, (abs_neg m).symm ▸ small, place, by push_cast; ring⟩

theorem representable_zpow {e : ℤ} (place : -1074 ≤ e) : Representable (2 ^ e) :=
  ⟨1, e, by norm_num, place, by norm_num⟩

theorem representable_zero : Representable 0 := ⟨0, 0, by norm_num, by norm_num, by norm_num⟩

/-- Every representable number is a multiple of the least positive one. -/
theorem Representable.exists_multiple {q : ℚ} (h : Representable q) :
    ∃ n : ℤ, q = n * 2 ^ (-1074 : ℤ) := by
  obtain ⟨m, e, -, place, rfl⟩ := h
  obtain ⟨k, rfl⟩ : ∃ k : ℕ, e = -1074 + k := ⟨(e + 1074).toNat, by omega⟩
  refine ⟨m * 2 ^ k, ?_⟩
  rw [zpow_add₀ two_ne_zero, zpow_natCast, Int.cast_mul, Int.cast_pow, Int.cast_ofNat, mul_assoc,
    mul_comm (2 ^ k : ℚ)]

/-- Different numbers are not closer to each other than that. -/
theorem zpow_le_sub {lo hi : ℚ} (repLo : Representable lo) (repHi : Representable hi)
    (lt : lo < hi) : (2 : ℚ) ^ (-1074 : ℤ) ≤ hi - lo := by
  obtain ⟨n, rfl⟩ := repLo.exists_multiple
  obtain ⟨k, rfl⟩ := repHi.exists_multiple
  have apart : n < k := by exact_mod_cast lt_of_mul_lt_mul_right lt (two_zpow_pos _).le
  have step : (n : ℚ) + 1 ≤ k := by exact_mod_cast apart
  rw [← sub_mul]
  exact le_mul_of_one_le_left (two_zpow_pos _).le (by linarith)

theorem representable_round (q : ℚ) : Representable (round q) := by
  have place : -1074 ≤ lastPlace q := le_max_right _ _
  rcases (abs_nearestInt_le q).lt_or_eq with lt | eq
  · exact ⟨_, _, lt, place, rfl⟩
  · -- All 53 digits were ones and have been carried over.
    have carried : (2 : ℚ) ^ 53 * 2 ^ lastPlace q = 2 ^ (lastPlace q + 53) := by
      rw [zpow_add₀ two_ne_zero, mul_comm]
      norm_num
    have power := representable_zpow (e := lastPlace q + 53) (by omega)
    unfold round
    rcases eq_or_eq_neg_of_abs_eq eq with eq | eq
    · rwa [eq, Int.cast_pow, Int.cast_ofNat, carried]
    · rw [eq, Int.cast_neg, Int.cast_pow, Int.cast_ofNat, neg_mul, carried]
      exact power.neg

theorem lastPlace_le {q : ℚ} (nonzero : q ≠ 0) {e : ℤ} (place : -1074 ≤ e)
    (small : |q| < 2 ^ (e + 53)) : lastPlace q ≤ e := by
  have log : Int.log 2 |q| < e + 53 :=
    (Int.lt_zpow_iff_log_lt one_lt_two (abs_pos.mpr nonzero)).mp small
  unfold lastPlace
  omega

theorem abs_mul_zpow_lt {m : ℤ} (small : |m| < 2 ^ 53) (e : ℤ) :
    |(m * 2 ^ e : ℚ)| < 2 ^ (e + 53) := by
  rw [abs_mul, abs_of_pos (two_zpow_pos e), zpow_add₀ two_ne_zero, mul_comm]
  refine mul_lt_mul_of_pos_left ?_ (two_zpow_pos e)
  exact_mod_cast small

theorem round_zero : round 0 = 0 := by
  rw [round, zero_div, show nearestInt 0 = 0 from nearestInt_intCast 0, Int.cast_zero, zero_mul]

theorem round_of_representable {q : ℚ} (h : Representable q) : round q = q := by
  by_cases nonzero : q = 0
  · rw [nonzero, round_zero]
  obtain ⟨m, e, small, place, eq⟩ := h
  have le : lastPlace q ≤ e := lastPlace_le nonzero place (eq ▸ abs_mul_zpow_lt small e)
  obtain ⟨k, rfl⟩ : ∃ k : ℕ, e = lastPlace q + k := ⟨(e - lastPlace q).toNat, by omega⟩
  have whole : q / 2 ^ lastPlace q = (m * 2 ^ k : ℤ) := by
    rw [div_eq_iff (two_zpow_pos _).ne']
    conv_lhs => rw [eq]
    rw [zpow_add₀ two_ne_zero, zpow_natCast]
    push_cast
    ring
  rw [round, whole, nearestInt_intCast, ← whole, div_mul_cancel₀ _ (two_zpow_pos _).ne']

/-- Among the multiples of the unit in the last place none is nearer. -/
theorem abs_round_sub_le_of_int (q : ℚ) (n : ℤ) : |round q - q| ≤ |n * 2 ^ lastPlace q - q| := by
  have scale (x : ℚ) : x * 2 ^ lastPlace q - q = (x - q / 2 ^ lastPlace q) * 2 ^ lastPlace q := by
    rw [sub_mul, div_mul_cancel₀ _ (two_zpow_pos _).ne']
  rw [round, scale, scale, abs_mul, abs_mul]
  exact mul_le_mul_of_nonneg_right (abs_nearestInt_sub_le_of_int _ n) (abs_nonneg _)

/-- A number with more than the least exponent is at least the first multiple of its binade. -/
theorem zpow_le_abs {q : ℚ} (nonzero : q ≠ 0) (normal : -1074 < lastPlace q) :
    (2 : ℚ) ^ (lastPlace q + 52) ≤ |q| := by
  refine (zpow_le_zpow_right₀ one_le_two ?_).trans (zpow_log_le nonzero)
  unfold lastPlace at *
  omega

/-- Seen from its last place, a positive number has 53 binary digits unless that place is the last
of all. -/
theorem le_nearestInt_div {q : ℚ} (positive : 0 < q) :
    2 ^ 52 ≤ nearestInt (q / 2 ^ lastPlace q) ∨ lastPlace q = -1074 := by
  by_cases least : lastPlace q = -1074
  · exact .inr least
  · have place : -1074 ≤ lastPlace q := le_max_right _ _
    have binade := zpow_le_abs positive.ne' (lt_of_le_of_ne place (Ne.symm least))
    rw [abs_of_pos positive, zpow_add₀ two_ne_zero] at binade
    refine .inl (le_nearestInt ?_)
    rw [le_div_iff₀ (two_zpow_pos _), mul_comm]
    exact_mod_cast binade

/-- No representable number is nearer. -/
theorem abs_round_sub_le {c : ℚ} (h : Representable c) (q : ℚ) : |round q - q| ≤ |c - q| := by
  by_cases nonzero : q = 0
  · rw [nonzero, round_zero, sub_self, abs_zero]
    exact abs_nonneg _
  obtain ⟨m, e, small, place, rfl⟩ := h
  rcases le_or_gt (lastPlace q) e with le | gt
  · obtain ⟨k, rfl⟩ : ∃ k : ℕ, e = lastPlace q + k := ⟨(e - lastPlace q).toNat, by omega⟩
    have multiple : (m * 2 ^ (lastPlace q + k) : ℚ) = (m * 2 ^ k : ℤ) * 2 ^ lastPlace q := by
      rw [zpow_add₀ two_ne_zero, zpow_natCast]
      push_cast
      ring
    rw [multiple]
    exact abs_round_sub_le_of_int q _
  · -- A number with digits behind the last place of `q` is too small to be in its binade.
    have binade := zpow_le_abs nonzero (by omega)
    have below : |(m * 2 ^ e : ℚ)| < 2 ^ (lastPlace q + 52) :=
      (abs_mul_zpow_lt small e).trans_le (zpow_le_zpow_right₀ one_le_two (by omega))
    have power : (2 : ℚ) ^ (lastPlace q + 52) = 2 ^ 52 * 2 ^ lastPlace q := by
      rw [zpow_add₀ two_ne_zero, mul_comm]
      norm_num
    rw [power] at binade below
    have far : |q| - |(m * 2 ^ e : ℚ)| ≤ |m * 2 ^ e - q| := by
      rw [abs_sub_comm]
      exact abs_sub_abs_le_abs_sub q _
    rcases abs_cases q with ⟨eq, -⟩ | ⟨eq, -⟩
    · refine (abs_round_sub_le_of_int q (2 ^ 52)).trans ?_
      rw [Int.cast_pow, Int.cast_ofNat, abs_sub_comm, abs_of_nonneg] <;> linarith
    · refine (abs_round_sub_le_of_int q (-2 ^ 52)).trans ?_
      rw [Int.cast_neg, Int.cast_pow, Int.cast_ofNat, neg_mul, abs_of_nonneg] <;> linarith

/-- Of two numbers the lesser one is the nearer one to whatever is not above their middle. -/
theorem add_le_of_abs_sub_le {r r' q : ℚ} (lt : r' < r) (near : |r - q| ≤ |r' - q|) :
    r + r' ≤ 2 * q := by
  have := le_abs_self (r - q)
  rcases abs_cases (r' - q) with ⟨eq, -⟩ | ⟨eq, -⟩ <;> linarith

/-- Rounding keeps the order. -/
theorem round_mono {q q' : ℚ} (le : q ≤ q') : round q ≤ round q' := by
  rcases le.lt_or_eq with lt | rfl
  · by_contra gt
    rw [not_le] at gt
    have low := add_le_of_abs_sub_le gt (abs_round_sub_le (representable_round q') q)
    have high := add_le_of_abs_sub_le (neg_lt_neg gt) (q := -q') <| by
      rw [neg_sub_neg, neg_sub_neg, abs_sub_comm, abs_sub_comm q']
      exact abs_round_sub_le (representable_round q) q'
    linarith
  · exact le_rfl

theorem round_le {q c : ℚ} (h : Representable c) (le : q ≤ c) : round q ≤ c :=
  (round_mono le).trans_eq (round_of_representable h)

theorem le_round {q c : ℚ} (h : Representable c) (le : c ≤ q) : c ≤ round q :=
  (round_of_representable h).symm.trans_le (round_mono le)

theorem round_nonneg {q : ℚ} (nonneg : 0 ≤ q) : 0 ≤ round q := le_round representable_zero nonneg

theorem round_neg (q : ℚ) : round (-q) = -round q := by
  rw [round, round, lastPlace, lastPlace, abs_neg, neg_div, nearestInt_neg, Int.cast_neg, neg_mul]

/-! ## How far rounding goes -/

theorem abs_round_sub_le_half (q : ℚ) : |round q - q| ≤ 2 ^ lastPlace q / 2 := by
  have near := abs_nearestInt_sub_le (q / 2 ^ lastPlace q)
  have scale : round q - q =
      (nearestInt (q / 2 ^ lastPlace q) - q / 2 ^ lastPlace q) * 2 ^ lastPlace q := by
    rw [sub_mul, div_mul_cancel₀ _ (two_zpow_pos _).ne', round]
  rw [scale, abs_mul, abs_of_pos (two_zpow_pos _)]
  have scaled := mul_le_mul_of_nonneg_right near (two_zpow_pos (lastPlace q)).le
  linarith

/-- A lesser number has no higher last place. -/
theorem lastPlace_mono {q r : ℚ} (nonzero : q ≠ 0) (le : |q| ≤ |r|) : lastPlace q ≤ lastPlace r :=
  max_le_max_right _ (Int.sub_le_sub_right (Int.log_mono_right (abs_pos.mpr nonzero) le) _)

theorem abs_round_sub_le_of_abs_le {q r : ℚ} (le : |q| ≤ |r|) :
    |round q - q| ≤ 2 ^ lastPlace r / 2 := by
  by_cases nonzero : q = 0
  · rw [nonzero, round_zero, sub_self, abs_zero]
    exact (half_pos (two_zpow_pos _)).le
  · refine (abs_round_sub_le_half q).trans ?_
    have place := zpow_le_zpow_right₀ (one_le_two (α := ℚ)) (lastPlace_mono nonzero le)
    linarith

theorem representable_of_multiple {q : ℚ} {n : ℤ} (multiple : q = n * 2 ^ (-1074 : ℤ))
    (small : |q| < 2 ^ (-1021 : ℤ)) : Representable q := by
  refine ⟨n, -1074, ?_, le_rfl, multiple⟩
  have limit : (2 : ℚ) ^ (-1021 : ℤ) = (2 ^ 53 : ℤ) * 2 ^ (-1074 : ℤ) := by
    rw [Int.cast_pow, Int.cast_ofNat, ← zpow_natCast, ← zpow_add₀ two_ne_zero]
    rfl
  rw [multiple, limit, abs_mul, abs_of_pos (two_zpow_pos _)] at small
  exact_mod_cast lt_of_mul_lt_mul_right small (two_zpow_pos _).le

theorem lt_of_lastPlace {q : ℚ} (least : lastPlace q = -1074) : |q| < 2 ^ (-1021 : ℤ) := by
  refine (lt_zpow_log q).trans_le (zpow_le_zpow_right₀ one_le_two ?_)
  unfold lastPlace at least
  omega

/-- Unless its last place is the last of all, a number is rounded by no more than a part in
`2 ^ 53` of it. -/
theorem abs_round_sub_le_div {q : ℚ} (normal : lastPlace q ≠ -1074) :
    |round q - q| ≤ |q| / 2 ^ 53 := by
  have place : -1074 ≤ lastPlace q := le_max_right _ _
  by_cases nonzero : q = 0
  · rw [nonzero, round_zero, sub_self, abs_zero, zero_div]
  · have binade := zpow_le_abs nonzero (lt_of_le_of_ne place normal.symm)
    have power : (2 : ℚ) ^ (lastPlace q + 52) = 2 ^ lastPlace q / 2 * 2 ^ 53 := by
      rw [zpow_add₀ two_ne_zero]
      norm_num
      ring
    rw [power] at binade
    refine (abs_round_sub_le_half q).trans ?_
    rwa [le_div_iff₀ (by norm_num)]

/-- Multiples of the least positive number are rounded by no more than that. -/
theorem abs_round_sub_le_of_multiple {q : ℚ} {n : ℤ} (multiple : q = n * 2 ^ (-1074 : ℤ)) :
    |round q - q| ≤ |q| / 2 ^ 53 := by
  by_cases least : lastPlace q = -1074
  · rw [round_of_representable (representable_of_multiple multiple (lt_of_lastPlace least)),
      sub_self, abs_zero]
    positivity
  · exact abs_round_sub_le_div least

theorem abs_round_sub_le_add (q : ℚ) : |round q - q| ≤ |q| / 2 ^ 53 + 2 ^ (-1074 : ℤ) / 2 := by
  by_cases least : lastPlace q = -1074
  · have near := abs_round_sub_le_half q
    rw [least] at near
    have : 0 ≤ |q| / 2 ^ 53 := by positivity
    linarith
  · have near := abs_round_sub_le_div least
    have := two_zpow_pos (-1074)
    linarith
end ScalarSolve.Double
