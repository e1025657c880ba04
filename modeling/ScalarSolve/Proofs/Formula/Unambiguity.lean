import ScalarSolve.Proofs.Formula.Tier

/-!
# The grammar is unambiguous

Two phrases of a category that begin the same lexemes are the same phrase, as long as neither could
have gone on: this is what a sign that binds tightest, the caret and the two tiers come to.  The
induction is on the number of nestings that the phrases may need, so inside one level each category
rests on the next tighter one, and every bracket leads to the level below.
-/

namespace ScalarSolve.Formula

variable {F : Type} [Arith F]

/-- A name of a leaf is not the name of a function. -/
theorem Elementary.ofName?_eq_none {name : String} {leaf : Tree F}
    (h : Tree.ofName? name = some leaf) : Elementary.ofName? name = none := by
  unfold Tree.ofName? at h
  split at h
  · rfl
  · rfl
  · rfl
  · cases h

namespace Phrase

variable (F) in
/-- Lexemes begin with at most one phrase of the category, of so many nestings, that stops there. -/
def Determined (c : Category) (n : Nat) : Prop :=
  ∀ ⦃p q : Phrase F c⦄, p.nesting ≤ n → q.nesting ≤ n → ∀ ⦃r s : List (Lexeme F)⦄,
    c.Stops r → c.Stops s → p.lexemes ++ r = q.lexemes ++ s → p = q ∧ r = s

variable {n : Nat}

/-! ## Tiers -/

theorem links_determined {t : Tier F} (operand : Determined F t.operand n) {r s : List (Lexeme F)}
    (stopsR : t.whole.Stops r) (stopsS : t.whole.Stops s) :
    ∀ {links links' : List t.Link}, (∀ link ∈ links, link.2.nesting ≤ n) →
      (∀ link ∈ links', link.2.nesting ≤ n) →
      Tier.lexemes links ++ r = Tier.lexemes links' ++ s → links = links' ∧ r = s := by
  intro links
  induction links with
  | nil =>
      intro links' _ _ h
      cases links' with
      | nil => exact ⟨rfl, h⟩
      | cons link links' =>
          -- One phrase ends where the other has an operator, and so did not stop there.
          change r = _ at h
          rw [h] at stopsR
          exact absurd stopsR (by simp [Tier.lexemes, t.continues_whole_mark])
  | cons link links ih =>
      intro links' nesting nesting' h
      cases links' with
      | nil =>
          change _ = s at h
          rw [← h] at stopsS
          exact absurd stopsS (by simp [Tier.lexemes, t.continues_whole_mark])
      | cons link' links' =>
          rw [List.forall_mem_cons] at nesting nesting'
          rw [Tier.lexemes, Tier.lexemes, List.append_assoc, List.append_assoc] at h
          obtain ⟨marks, h⟩ := List.cons.inj h
          obtain ⟨operands, h⟩ := operand nesting.1 nesting'.1
            (Tier.stops_lexemes links stopsR) (Tier.stops_lexemes links' stopsS) h
          obtain ⟨rfl, rfl⟩ := ih nesting.2 nesting'.2 h
          exact ⟨congrArg (· :: links) (Prod.ext (t.mark_inj marks) operands), rfl⟩

/-- A tier is determined by its operands. -/
theorem Determined.whole {t : Tier F} (operand : Determined F t.operand n) :
    Determined F t.whole n := by
  intro p q nestingP nestingQ r s stopsR stopsS h
  obtain ⟨first, links, rfl⟩ := Tier.exists_extend p
  obtain ⟨first', links', rfl⟩ := Tier.exists_extend q
  rw [Tier.nesting_extend_le, t.nesting_single] at nestingP nestingQ
  rw [Tier.lexemes_extend, Tier.lexemes_extend, t.lexemes_single, t.lexemes_single,
    List.append_assoc, List.append_assoc] at h
  obtain ⟨rfl, after⟩ := operand nestingP.1 nestingQ.1
    (Tier.stops_lexemes links stopsR) (Tier.stops_lexemes links' stopsS) h
  obtain ⟨rfl, rfl⟩ := links_determined operand stopsR stopsS nestingP.2 nestingQ.2 after
  exact ⟨rfl, rfl⟩

/-! ## Atoms, signs and powers -/

/-- Inside a nesting there is one nesting fewer. -/
theorem Determined.inside {c : Category} (inner : ∀ m < n, Determined F c m) {p q : Phrase F c}
    (nestingP : p.nesting < n) (nestingQ : q.nesting < n) {r s : List (Lexeme F)}
    (stopsR : c.Stops r) (stopsS : c.Stops s) (h : p.lexemes ++ r = q.lexemes ++ s) :
    p = q ∧ r = s :=
  inner (n - 1) (by omega) (by omega) (by omega) stopsR stopsS h

/-- A sum ends where its parenthesis closes. -/
theorem Determined.group (inner : ∀ m < n, Determined F .sum m) {p q : Phrase F .sum}
    (nestingP : p.nesting < n) (nestingQ : q.nesting < n) {r s : List (Lexeme F)}
    (h : p.lexemes ++ .closing :: r = q.lexemes ++ .closing :: s) : p = q ∧ r = s := by
  obtain ⟨rfl, after⟩ := Determined.inside inner nestingP nestingQ
    (by simp [Category.continues]) (by simp [Category.continues]) h
  exact ⟨rfl, (List.cons.inj after).2⟩

/-- Nothing makes a signed operand longer. -/
theorem Determined.operand (signed : Determined F .signed n) {p q : Phrase F .signed}
    (nestingP : p.nesting ≤ n) (nestingQ : q.nesting ≤ n) {r s : List (Lexeme F)}
    (h : p.lexemes ++ r = q.lexemes ++ s) : p = q ∧ r = s :=
  signed nestingP nestingQ (Category.stops_signed r) (Category.stops_signed s) h

theorem determined_atom (inner : ∀ m < n, Determined F .sum m) : Determined F .atom n := by
  intro p q nestingP nestingQ r s _ _ h
  cases p with
  | number value =>
      cases q with
      | number value' => simpa [lexemes] using h
      | leaf _ _ _ | call _ _ _ _ | group _ => simp [lexemes] at h
  | leaf name leaf named =>
      cases q with
      | leaf name' leaf' named' =>
          obtain ⟨rfl, rfl⟩ : name = name' ∧ r = s := by simpa [lexemes] using h
          obtain rfl : leaf = leaf' := Option.some.inj (named.symm.trans named')
          exact ⟨rfl, rfl⟩
      | call name' f named' argument =>
          obtain ⟨rfl, -⟩ : name = name' ∧ _ := by simpa [lexemes] using h
          cases named'.symm.trans (Elementary.ofName?_eq_none named)
      | number _ | group _ => simp [lexemes] at h
  | call name f named argument =>
      cases q with
      | leaf name' leaf named' =>
          obtain ⟨rfl, -⟩ : name = name' ∧ _ := by simpa [lexemes] using h
          cases named.symm.trans (Elementary.ofName?_eq_none named')
      | call name' f' named' argument' =>
          obtain ⟨rfl, arguments⟩ : name = name' ∧ argument.lexemes ++ .closing :: r =
              argument'.lexemes ++ .closing :: s := by simpa [lexemes] using h
          obtain rfl : f = f' := Option.some.inj (named.symm.trans named')
          obtain ⟨rfl, rfl⟩ := Determined.group inner nestingP nestingQ arguments
          exact ⟨rfl, rfl⟩
      | number _ | group _ => simp [lexemes] at h
  | group p =>
      cases q with
      | group q =>
          have bodies : p.lexemes ++ .closing :: r = q.lexemes ++ .closing :: s := by
            simpa [lexemes] using h
          obtain ⟨rfl, rfl⟩ := Determined.group inner nestingP nestingQ bodies
          exact ⟨rfl, rfl⟩
      | number _ | leaf _ _ _ | call _ _ _ _ => simp [lexemes] at h

/-- An atom does not begin with a sign. -/
theorem sign?_eq_none_of_atom (p : Phrase F .atom) {r ls : List (Lexeme F)} {l : Lexeme F}
    (h : p.lexemes ++ r = l :: ls) : Rules.sign? l = none := by
  cases p with
  | number value =>
      obtain ⟨rfl, -⟩ := List.cons.inj h
      rfl
  | leaf name leaf named =>
      obtain ⟨rfl, -⟩ := List.cons.inj h
      rfl
  | call name f named argument =>
      obtain ⟨rfl, -⟩ := List.cons.inj h
      rfl
  | group p =>
      obtain ⟨rfl, -⟩ := List.cons.inj h
      rfl

theorem determined_signed (atom : Determined F .atom n)
    (inner : ∀ m < n, Determined F .signed m) : Determined F .signed n := by
  intro p q nestingP nestingQ r s _ _ h
  cases p with
  | atom p =>
      cases q with
      | atom q =>
          obtain ⟨rfl, rfl⟩ := atom nestingP nestingQ (by simp) (by simp) h
          exact ⟨rfl, rfl⟩
      | plus q | minus q => cases sign?_eq_none_of_atom p h
  | plus p =>
      cases q with
      | atom q => cases sign?_eq_none_of_atom q h.symm
      | plus q =>
          obtain ⟨rfl, rfl⟩ := Determined.inside inner nestingP nestingQ
            (Category.stops_signed r) (Category.stops_signed s) (List.cons.inj h).2
          exact ⟨rfl, rfl⟩
      | minus q => simp [lexemes] at h
  | minus p =>
      cases q with
      | atom q => cases sign?_eq_none_of_atom q h.symm
      | plus q => simp [lexemes] at h
      | minus q =>
          obtain ⟨rfl, rfl⟩ := Determined.inside inner nestingP nestingQ
            (Category.stops_signed r) (Category.stops_signed s) (List.cons.inj h).2
          exact ⟨rfl, rfl⟩

theorem determined_power (signed : Determined F .signed n)
    (inner : ∀ m < n, Determined F .power m) : Determined F .power n := by
  intro p q nestingP nestingQ r s stopsR stopsS h
  cases p with
  | signed p =>
      cases q with
      | signed q =>
          obtain ⟨rfl, rfl⟩ := signed.operand nestingP nestingQ h
          exact ⟨rfl, rfl⟩
      | pow base exponent =>
          rw [lexemes, lexemes, List.append_assoc] at h
          obtain ⟨-, rfl⟩ := signed.operand nestingP (Nat.max_le.mp nestingQ).1 h
          cases stopsR
  | pow base exponent =>
      rw [nesting, Nat.max_le] at nestingP
      cases q with
      | signed q =>
          rw [lexemes, lexemes, List.append_assoc] at h
          obtain ⟨-, rfl⟩ := signed.operand nestingP.1 nestingQ h
          cases stopsS
      | pow base' exponent' =>
          rw [nesting, Nat.max_le] at nestingQ
          rw [lexemes, lexemes, List.append_assoc, List.append_assoc] at h
          obtain ⟨rfl, carets⟩ := signed.operand nestingP.1 nestingQ.1 h
          obtain ⟨rfl, rfl⟩ := Determined.inside inner nestingP.2 nestingQ.2 stopsR stopsS
            (List.cons.inj carets).2
          exact ⟨rfl, rfl⟩

/-! ## All categories -/

theorem determined : ∀ (n : Nat) (c : Category), Determined F c n := by
  intro n
  induction n using Nat.strongRecOn with
  | ind n ih =>
      have atom := determined_atom fun m below ↦ ih m below .sum
      have signed := determined_signed atom fun m below ↦ ih m below .signed
      have power := determined_power signed fun m below ↦ ih m below .power
      have product : Determined F .product n := Determined.whole (t := Tier.products) power
      have sum : Determined F .sum n := Determined.whole (t := Tier.sums) product
      intro c
      cases c with
      | sum => exact sum
      | product => exact product
      | power => exact power
      | signed => exact signed
      | atom => exact atom

/-- Phrases of a category with the same lexemes are the same. -/
theorem lexemes_injective (c : Category) : Function.Injective (lexemes (F := F) (c := c)) := by
  intro p q h
  exact (determined (max p.nesting q.nesting) c (Nat.le_max_left _ _) (Nat.le_max_right _ _)
    (Category.stops_nil c) (Category.stops_nil c) (congrArg (· ++ []) h)).1

end Phrase

end ScalarSolve.Formula
