import Mathlib.Algebra.Ring.Int.Defs
import Mathlib.Order.Bounds.Basic
import ScalarSolve.Program.Compile
import ScalarSolve.Program.Fits

/-!
# Heights of the value stack

How high the value stack stands while code runs depends on the code alone: every instruction has a
net effect, and the effects add up.  Fed code has the heights that its effects say, and the machine
follows them with any scalars.

What trees are written out as is fed, and leaves exactly one more value on whatever stack it starts
from.  The same holds when `x - α · f(x)` is built around such code.
-/

namespace ScalarSolve

open Formula

namespace Instr

variable {F : Type}

/-- The net change of the height. -/
def effect (i : Instr F) : Int := 1 - i.operands

/-- The height that code leaves behind, as the sum of the net changes. -/
def height (code : List (Instr F)) : Int := (code.map effect).sum

/-- The height after code that starts on a stack of height `h`. -/
def heightFrom (h : Nat) (code : List (Instr F)) : Nat :=
  code.foldl (fun h i ↦ i.heightAfter h) h

@[simp] theorem height_nil : height ([] : List (Instr F)) = 0 := rfl

@[simp] theorem height_cons (i : Instr F) (code : List (Instr F)) :
    height (i :: code) = i.effect + height code := by
  simp [height]

@[simp] theorem heightFrom_nil (h : Nat) : heightFrom h ([] : List (Instr F)) = h := rfl

@[simp] theorem heightFrom_cons (h : Nat) (i : Instr F) (code : List (Instr F)) :
    heightFrom h (i :: code) = heightFrom (i.heightAfter h) code := rfl

@[simp] theorem heightFrom_append (h : Nat) (c d : List (Instr F)) :
    heightFrom h (c ++ d) = heightFrom (heightFrom h c) d := by
  simp [heightFrom]

@[simp] theorem fed_append {h : Nat} {c d : List (Instr F)} :
    Fed h (c ++ d) ↔ Fed h c ∧ Fed (heightFrom h c) d := by
  induction c generalizing h with
  | nil => simp
  | cons i c ih => simp [ih, and_assoc]

@[simp] theorem peakFrom_append (h : Nat) (c d : List (Instr F)) :
    peakFrom h (c ++ d) = max (peakFrom h c) (peakFrom (heightFrom h c) d) := by
  induction c generalizing h with
  | nil =>
      rw [List.nil_append, peakFrom_nil, heightFrom_nil]
      exact (Nat.max_eq_right (le_peakFrom h d)).symm
  | cons i c ih =>
      rw [List.cons_append, peakFrom_cons, peakFrom_cons, heightFrom_cons, ih, Nat.max_assoc]

/-- An instruction that finds its operands changes the height by its effect. -/
theorem heightAfter_eq {i : Instr F} {h : Nat} (fed : i.operands ≤ h) :
    (i.heightAfter h : Int) = h + i.effect := by
  simp only [heightAfter, effect]
  omega

/-- On fed code, heights that stop at zero agree with the sums of the effects. -/
theorem heightFrom_eq {h : Nat} {code : List (Instr F)} (fed : Fed h code) :
    (heightFrom h code : Int) = h + height code := by
  induction code generalizing h with
  | nil => simp
  | cons i code ih =>
      obtain ⟨operands, fed⟩ := fed
      rw [heightFrom_cons, height_cons, ih fed, heightAfter_eq operands]
      omega

/-- In fed code, the effects before an instruction add up to at least as many values as it takes. -/
theorem operands_le_height {h : Nat} {before after : List (Instr F)} {i : Instr F}
    (fed : Fed h (before ++ i :: after)) : (i.operands : Int) ≤ h + height before := by
  obtain ⟨fedBefore, fedAfter⟩ := fed_append.mp fed
  have found : i.operands ≤ heightFrom h before := fedAfter.1
  have same := heightFrom_eq fedBefore
  omega

/-- The peak is the greatest of the heights after the beginnings of the code. -/
theorem isGreatest_peakFrom {h : Nat} {code : List (Instr F)} (fed : Fed h code) :
    IsGreatest {k : Int | ∃ before, before <+: code ∧ k = h + height before}
      (peakFrom h code) := by
  induction code generalizing h with
  | nil =>
      refine ⟨⟨[], List.prefix_rfl, by simp⟩, ?_⟩
      rintro k ⟨before, start, rfl⟩
      rw [List.prefix_nil.mp start]
      simp
  | cons i code ih =>
      obtain ⟨operands, fed⟩ := fed
      obtain ⟨⟨before, start, attained⟩, bound⟩ := ih fed
      rw [heightAfter_eq operands] at attained
      constructor
      · -- Either nothing has run yet at the peak, or the peak is one of the rest of the code.
        rcases Nat.le_total h (peakFrom (i.heightAfter h) code) with le | le
        · refine ⟨i :: before, (List.cons_prefix_cons).mpr ⟨rfl, start⟩, ?_⟩
          rw [peakFrom_cons, Nat.max_eq_right le, attained, height_cons]
          omega
        · refine ⟨[], List.nil_prefix, ?_⟩
          rw [peakFrom_cons, Nat.max_eq_left le]
          simp
      · rintro k ⟨front, begins, rfl⟩
        rw [peakFrom_cons]
        cases front with
        | nil =>
            rw [height_nil]
            omega
        | cons j tail =>
            obtain ⟨rfl, rest⟩ := List.cons_prefix_cons.mp begins
            have le := bound ⟨tail, rest, rfl⟩
            rw [heightAfter_eq operands] at le
            rw [height_cons]
            omega

/-! ## Code that leaves one more value -/

/-- Code that runs on a stack of any height, leaves one more value there, and needs room for `depth`
values on the way. -/
structure Pushes (code : List (Instr F)) (depth : Nat) : Prop where
  fed : ∀ h, Fed h code
  height : ∀ h, heightFrom h code = h + 1
  peak : ∀ h, peakFrom h code = h + depth

namespace Pushes

theorem depth_pos {code : List (Instr F)} {depth : Nat} (p : Pushes code depth) : 0 < depth := by
  have peak := p.peak 0
  have last : heightFrom 0 code ≤ peakFrom 0 code := by
    have whole := peakFrom_append 0 code []
    rw [List.append_nil, peakFrom_nil] at whole
    omega
  rw [p.height] at last
  omega

/-- An instruction without operands. -/
theorem single {i : Instr F} (operands : i.operands = 0) : Pushes [i] 1 where
  fed h := by simp [operands]
  height h := by simp [heightAfter, operands]
  peak h := by simp [heightAfter, operands]

/-- An instruction that replaces the value on top. -/
theorem unary {code : List (Instr F)} {depth : Nat} (p : Pushes code depth) {i : Instr F}
    (operands : i.operands = 1) : Pushes (code ++ [i]) depth where
  fed h := by simp [p.fed h, p.height h, operands]
  height h := by simp [p.height h, heightAfter, operands]
  peak h := by
    have positive := p.depth_pos
    simp only [peakFrom_append, p.peak h, p.height h, peakFrom_cons, peakFrom_nil, heightAfter,
      operands]
    omega

/-- An instruction that combines the two values on top, the first of which waits while the code of
the second one runs. -/
theorem binary {c d : List (Instr F)} {m n : Nat} (p : Pushes c m) (q : Pushes d n) {i : Instr F}
    (operands : i.operands = 2) : Pushes (c ++ d ++ [i]) (max m (n + 1)) where
  fed h := by simp [p.fed h, p.height h, q.fed (h + 1), q.height (h + 1), operands]
  height h := by simp [p.height h, q.height (h + 1), heightAfter, operands]
  peak h := by
    have positive := q.depth_pos
    simp only [peakFrom_append, heightFrom_append, p.peak h, p.height h, q.peak (h + 1),
      q.height (h + 1), peakFrom_cons, peakFrom_nil, heightAfter, operands]
    omega

end Pushes

/-- The code of a tree leaves one value, and its peak on an empty stack is the room it needs. -/
theorem pushes_code (t : Formula.Tree F) : Pushes t.code (peakFrom 0 t.code) := by
  suffices found : ∃ depth, Pushes t.code depth by
    obtain ⟨depth, p⟩ := found
    have peak := p.peak 0
    rw [Nat.zero_add] at peak
    exact peak ▸ p
  fun_induction Tree.code t with
  | case1 v => exact ⟨_, .single rfl⟩
  | case2 => exact ⟨_, .single rfl⟩
  | case3 t ih =>
      obtain ⟨depth, p⟩ := ih
      exact ⟨_, p.unary rfl⟩
  | case4 l n ih =>
      obtain ⟨depth, p⟩ := ih
      exact ⟨_, p.unary rfl⟩
  | case5 op l r _ ihl ihr =>
      obtain ⟨m, p⟩ := ihl
      obtain ⟨n, q⟩ := ihr
      exact ⟨_, p.binary q rfl⟩
  | case6 f t ih =>
      obtain ⟨depth, p⟩ := ih
      exact ⟨_, p.unary rfl⟩

end Instr

namespace Program

variable {F : Type}

/-- A tree is compiled to the code of the folded tree, with its peak as depth. -/
theorem ofTree_eq_ok [Arith F] {t : Formula.Tree F} {p : Program F} (compiled : ofTree t = .ok p) :
    p = ⟨t.fold.code, Instr.peakFrom 0 t.fold.code⟩ ∧ p.depth ≤ maxStackDepth := by
  unfold ofTree at compiled
  dsimp only at compiled
  split at compiled
  · cases compiled
  · next fits =>
      cases compiled
      exact ⟨rfl, Nat.le_of_not_lt fits⟩

/-- The map `x - α · p` waits for the program `p` with two values on the stack. -/
theorem pushes_residualMap {p : Program F} (pushes : Instr.Pushes p.code p.depth) (α : F) :
    Instr.Pushes (p.residualMap α).code (p.residualMap α).depth := by
  have product : Instr.Pushes ([.const α] ++ p.code ++ [.binary .mul]) (max 1 (p.depth + 1)) :=
    .binary (.single rfl) pushes rfl
  have difference : Instr.Pushes ([.var] ++ ([.const α] ++ p.code ++ [.binary .mul])
      ++ [.binary .sub]) (max 1 (max 1 (p.depth + 1) + 1)) :=
    .binary (.single rfl) product rfl
  have depth : max 1 (max 1 (p.depth + 1) + 1) = (p.residualMap α).depth := by
    rw [depth_residualMap]
    omega
  rw [depth] at difference
  simpa [residualMap] using difference

end Program

end ScalarSolve
