import ScalarSolve.Proofs.Expression.Stack
import ScalarSolve.Proofs.Formula.Recognition
import ScalarSolve.Proofs.Program.Correctness

/-!
# Sizes

Every node of a tree is owed to a token of its own, so the limit on tokens is one on trees as well,
on their height and on all that is made of them.  Folding puts single numbers in place of larger
parts, and every node is written out as one instruction at most.  Only maps make programs longer
than that, each of them by four instructions.
-/

namespace ScalarSolve

open Formula

variable {F : Type}

namespace Formula

namespace Tree

/-- The number of nodes on the longest way from the root to a leaf. -/
def height : Tree F → Nat
  | number _ | var => 1
  | neg t | call _ t => t.height + 1
  | binary _ l r => max l.height r.height + 1

theorem height_le_size (t : Tree F) : t.height ≤ t.size := by
  induction t with
  | number | var => exact Nat.le_refl 1
  | neg t ih => exact Nat.succ_le_succ ih
  | call f t ih => exact Nat.succ_le_succ ih
  | binary op l r ihl ihr =>
      rw [height, size]
      omega

/-- A node is written out as one instruction, or as none if it is a constant exponent. -/
theorem length_code_le (t : Tree F) : t.code.length ≤ t.size := by
  fun_induction code t with
  | case1 | case2 => exact Nat.le_refl 1
  | case3 t ih | case6 f t ih =>
      rw [List.length_append, size]
      exact Nat.succ_le_succ ih
  | case4 l n ih =>
      rw [List.length_append, List.length_singleton, size, size]
      omega
  | case5 op l r _ ihl ihr =>
      rw [List.length_append, List.length_append, List.length_singleton, size]
      omega

variable [Arith F]

theorem size_ofName? {name : String} {t : Tree F} (named : ofName? name = some t) : t.size = 1 := by
  unfold ofName? at named
  split at named <;> cases named <;> rfl

/-! ## Folding -/

theorem size_foldedNeg_le (t : Tree F) : (foldedNeg t).size ≤ t.size + 1 := by
  rcases foldedNeg_cases t with eq | ⟨v, -, eq⟩
  · rw [eq, size]
  · rw [eq, size]
    omega

theorem size_foldedBinary_le (op : Operator) (l r : Tree F) :
    (foldedBinary op l r).size ≤ l.size + r.size + 1 := by
  rcases foldedBinary_cases op l r with eq | ⟨a, b, v, -, -, -, eq⟩
  · rw [eq, size]
  · rw [eq, size]
    omega

theorem size_foldedCall_le (f : Elementary) (t : Tree F) : (foldedCall f t).size ≤ t.size + 1 := by
  rcases foldedCall_cases f t with eq | ⟨a, v, -, -, eq⟩
  · rw [eq, size]
  · rw [eq, size]
    omega

theorem size_fold_le (t : Tree F) : t.fold.size ≤ t.size := by
  induction t with
  | number | var => exact Nat.le_refl 1
  | neg t ih =>
      have folded := size_foldedNeg_le t.fold
      rw [fold, size]
      omega
  | binary op l r ihl ihr =>
      have folded := size_foldedBinary_le op l.fold r.fold
      rw [fold, size]
      omega
  | call f t ih =>
      have folded := size_foldedCall_le f t.fold
      rw [fold, size]
      omega

end Tree

/-! ## Tokens -/

variable [Arith F]

/-- Every node of the tree of a phrase has a lexeme to itself: a number or name, an operator, a
minus sign, or the name of a function. -/
theorem Phrase.size_tree_le {c : Category} (p : Phrase F c) : p.tree.size ≤ p.lexemes.length := by
  induction p with
  | product p ih | power p ih | signed p ih | atom p ih => exact ih
  | number value => exact Nat.le_refl 1
  | leaf name t named => exact Nat.le_of_eq (Tree.size_ofName? named)
  | add l r ihl ihr | sub l r ihl ihr | mul l r ihl ihr | div l r ihl ihr | pow l r ihl ihr =>
      rw [tree, lexemes, Tree.size, List.length_append, List.length_cons]
      omega
  | plus p ih =>
      rw [tree, lexemes, List.length_cons]
      omega
  | minus p ih =>
      rw [tree, lexemes, Tree.size, List.length_cons]
      omega
  | call name f named p ih =>
      rw [tree, lexemes, Tree.size]
      simp only [List.length_cons, List.length_append]
      omega
  | group p ih =>
      rw [tree, lexemes]
      simp only [List.length_cons, List.length_append]
      omega

/-- The tree of a text has no more nodes than the text has tokens. -/
theorem Tree.size_ofText {text : String} {t : Tree F} (read : ofText text = .ok t) :
    ∃ ts : List (Token F), Token.ofText text = .ok ts ∧ t.size ≤ ts.length ∧
      ts.length ≤ maxTokens := by
  obtain ⟨ts, scanned, parsed⟩ := ofText_eq_ok.mp read
  obtain ⟨-, few, gives⟩ := ofTokens_eq_ok.mp parsed
  obtain ⟨p, rfl, -, front⟩ := (Rules.exact_allowing text.utf8ByteSize maxNesting).sum.sound gives
  refine ⟨ts, scanned, ?_, few⟩
  have nodes := p.size_tree_le
  rwa [begins_all.mp front, List.length_map] at nodes

end Formula

/-! ## Programs -/

theorem Program.size_le_of_ofTree [Arith F] {t : Formula.Tree F} {p : Program F}
    (compiled : ofTree t = .ok p) : p.size ≤ t.fold.size := by
  obtain ⟨rfl, -⟩ := ofTree_eq_ok compiled
  exact t.fold.length_code_le

namespace Expression

@[simp] theorem size_residualMaps [Numeral F] (e : Expression F) (αs : List F) :
    (e.residualMaps αs).size = e.size + 4 * αs.length := by
  induction αs generalizing e with
  | nil => rfl
  | cons α αs ih =>
      change ((e.residualMap α).residualMaps αs).size = _
      rw [ih, residualMap, size, Program.size_residualMap, size, List.length_cons]
      omega

/-- The tree of a text has no more nodes than the text has tokens, so 2048 at most.  Folding makes
it no larger, the program has no more instructions than the folded tree has nodes, and only maps
around it add to them, four instructions each. -/
theorem size_of_ofText [Arith F] [Numeral F] {text : String} {t : Formula.Tree F}
    (read : Tree.ofText text = .ok t) :
    (∃ ts : List (Token F), Token.ofText text = .ok ts ∧ t.size ≤ ts.length ∧ ts.length ≤ 2048) ∧
      t.size ≤ 2048 ∧ t.height ≤ 2048 ∧ t.fold.size ≤ t.size ∧
      (∀ p, Program.ofTree t = .ok p → p.size ≤ t.fold.size) ∧
      ∀ e : Expression F, compile text = .ok e →
        e.size ≤ t.fold.size ∧ e.size ≤ 2048 ∧
          ∀ αs, (e.residualMaps αs).size = e.size + 4 * αs.length := by
  obtain ⟨ts, scanned, nodes, few⟩ := Tree.size_ofText read
  have size : t.size ≤ 2048 := Nat.le_trans nodes few
  have folded := t.size_fold_le
  refine ⟨⟨ts, scanned, nodes, few⟩, size, Nat.le_trans t.height_le_size size, folded, ?_, ?_⟩
  · exact fun p compiled ↦ Program.size_le_of_ofTree compiled
  · intro e compiled
    obtain ⟨t', p, read', written, rfl⟩ := compile_eq_ok.mp compiled
    obtain rfl : t' = t := Except.ok.inj (read'.symm.trans read)
    have short := Program.size_le_of_ofTree written
    exact ⟨short, Nat.le_trans short (Nat.le_trans folded size), size_residualMaps _⟩

/-- On doubles, nine tokens make seven nodes, and folding leaves five for five instructions. -/
theorem size_of_ofText_square :
    ∃ (t : Formula.Tree Float) (e : Expression Float), Tree.ofText "x*x-(2+3)" = .ok t ∧
      compile "x*x-(2+3)" = .ok e ∧ t.size = 7 ∧ t.height = 3 ∧ t.fold.size = 5 ∧ e.size = 5 ∧
      t.size ≤ 2048 ∧ e.size ≤ t.fold.size ∧ (e.residualMaps [0.5, 2]).size = 13 := by
  have read : Tree.ofText "x*x-(2+3)" = .ok (.binary .sub (.binary .mul .var .var)
      (.binary .add (.number 2) (.number 3)) : Formula.Tree Float) := by
    decide +kernel
  have compiled : compile "x*x-(2+3)" = .ok (⟨"x*x-(2+3)",
      ⟨[.var, .var, .binary .mul, .const 5, .binary .sub], 2⟩⟩ : Expression Float) := by
    decide +kernel
  obtain ⟨-, size, -, -, -, compiles⟩ := size_of_ofText read
  obtain ⟨short, -, maps⟩ := compiles _ compiled
  exact ⟨_, _, read, compiled, rfl, rfl, by decide +kernel, rfl, size, short, maps [0.5, 2]⟩

end Expression

end ScalarSolve
