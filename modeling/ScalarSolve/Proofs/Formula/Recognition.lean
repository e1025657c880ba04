import ScalarSolve.Proofs.Formula.Gives
import ScalarSolve.Proofs.Formula.Unambiguity

/-!
# The rules read the grammar

A rule is *exact* for a category when it reads nothing but phrases of it and reads every one of them
that stops where the tokens go on.  The rules of one level are exact for phrases of so many nestings
because those inside a nesting are exact for one nesting fewer, and so are all rules.
-/

namespace ScalarSolve.Formula

open Reading

variable {F : Type}

/-! ## Tokens at the front -/

/-- The tokens begin with these lexemes, and others come after them. -/
def Begins : List (Lexeme F) → List (Token F) → List (Token F) → Prop
  | [], ts, rest => ts = rest
  | l :: ls, ts, rest => ∃ tok ts', ts = tok :: ts' ∧ tok.lexeme = l ∧ Begins ls ts' rest

theorem begins_cons {l : Lexeme F} {ls : List (Lexeme F)} {tok : Token F}
    {ts rest : List (Token F)} :
    Begins (l :: ls) (tok :: ts) rest ↔ tok.lexeme = l ∧ Begins ls ts rest := by
  constructor
  · rintro ⟨_, _, ⟨rfl, rfl⟩, h⟩
    exact h
  · intro h
    exact ⟨tok, ts, rfl, h⟩

theorem begins_append {ls ls' : List (Lexeme F)} {ts rest : List (Token F)} :
    Begins (ls ++ ls') ts rest ↔ ∃ mid, Begins ls ts mid ∧ Begins ls' mid rest := by
  induction ls generalizing ts with
  | nil =>
      constructor
      · intro h
        exact ⟨ts, rfl, h⟩
      · rintro ⟨_, rfl, h⟩
        exact h
  | cons l ls ih =>
      constructor
      · rintro ⟨tok, ts', rfl, lexeme, h⟩
        obtain ⟨mid, front, back⟩ := ih.mp h
        exact ⟨mid, ⟨tok, ts', rfl, lexeme, front⟩, back⟩
      · rintro ⟨mid, ⟨tok, ts', rfl, lexeme, front⟩, back⟩
        exact ⟨tok, ts', rfl, lexeme, ih.mpr ⟨mid, front, back⟩⟩

theorem begins_map {ls : List (Lexeme F)} {ts rest : List (Token F)} (h : Begins ls ts rest) :
    ts.map Token.lexeme = ls ++ rest.map Token.lexeme := by
  induction ls generalizing ts with
  | nil => exact congrArg _ h
  | cons l ls ih =>
      obtain ⟨tok, ts', rfl, rfl, h⟩ := h
      exact congrArg (tok.lexeme :: ·) (ih h)

/-- Nothing comes after all of the tokens. -/
theorem begins_all {ls : List (Lexeme F)} {ts : List (Token F)} :
    Begins ls ts [] ↔ ls = ts.map Token.lexeme := by
  constructor
  · intro h
    rw [begins_map h, List.map_nil, List.append_nil]
  · rintro rfl
    induction ts with
    | nil => rfl
    | cons tok ts ih => exact begins_cons.mpr ⟨rfl, ih⟩

theorem Rules.sign?_eq_some {l : Lexeme F} {apply : Tree F → Tree F} :
    sign? l = some apply ↔ l = .plus ∧ apply = id ∨ l = .minus ∧ apply = .neg := by
  cases l <;> simp [sign?, eq_comm]

variable [Arith F]

/-! ## Exact rules -/

/-- A rule reads the phrases of a category that have no more than so many nestings. -/
structure Rule.Exact (c : Category) (n : Nat) (rule : Rule F) : Prop where
  sound : ∀ {ts t rest}, Gives (rule ts) t rest →
    ∃ p : Phrase F c, p.tree = t ∧ p.nesting ≤ n ∧ Begins p.lexemes ts rest
  complete : ∀ {ts rest} (p : Phrase F c), p.nesting ≤ n → Begins p.lexemes ts rest →
    c.Stops (rest.map Token.lexeme) → Gives (rule ts) p.tree rest

/-- Rules that a nesting may start with are exact. -/
structure Rules.Exact (n : Nat) (rules : Rules F) : Prop where
  sum : Rule.Exact .sum n rules.sum
  power : Rule.Exact .power n rules.power
  signed : Rule.Exact .signed n rules.signed

/-- The rules inside a nesting, if there are any, are exact for one nesting fewer. -/
inductive Rules.Inside : Nat → Option (Rules F) → Prop
  | none : Inside 0 none
  | some {n : Nat} {rules : Rules F} (exact : rules.Exact n) : Inside (n + 1) (some rules)

/-! ## Tiers -/

namespace Tier

variable {t : Tier F} {rule : Rule F} {n : Nat}

/-- A chain reads links, each of which takes tokens. -/
theorem sound_chain (operand : Rule.Exact t.operand n rule) {ts rest : List (Token F)}
    {left u : Tree F} (h : Gives (Rules.chain t.operator? rule left ts) u rest) :
    ∃ links : List t.Link, grow left links = u ∧ (∀ link ∈ links, link.2.nesting ≤ n) ∧
      Begins (lexemes links) ts rest := by
  -- What is left behind an operand is no tail of the tokens by shape, only shorter.
  induction length : ts.length using Nat.strongRecOn generalizing ts left with
  | ind size ih =>
      cases ts with
      | nil =>
          obtain ⟨rfl, rfl⟩ := Rules.gives_chain_nil.mp h
          exact ⟨[], rfl, by simp, rfl⟩
      | cons tok ts =>
          cases found : t.operator? tok.lexeme with
          | none =>
              obtain ⟨rfl, rfl⟩ := (Rules.gives_chain_of_none found).mp h
              exact ⟨[], rfl, by simp, rfl⟩
          | some op =>
              obtain ⟨right, mid, read, h⟩ := (Rules.gives_chain_of_some found).mp h
              obtain ⟨b, mark, rfl⟩ := t.operator?_eq_some.mp found
              obtain ⟨p, rfl, nesting, front⟩ := operand.sound read
              have shorter : mid.length < size := by
                have := read.length_lt
                rw [← length, List.length_cons]
                omega
              obtain ⟨links, rfl, nestings, back⟩ := ih mid.length shorter h rfl
              refine ⟨(b, p) :: links, rfl, List.forall_mem_cons.mpr ⟨nesting, nestings⟩, ?_⟩
              exact ⟨tok, ts, rfl, mark, begins_append.mpr ⟨mid, front, back⟩⟩

theorem complete_chain (operand : Rule.Exact t.operand n rule) {rest : List (Token F)}
    (stops : t.whole.Stops (rest.map Token.lexeme)) :
    ∀ {links : List t.Link} {ts : List (Token F)} {left : Tree F},
      (∀ link ∈ links, link.2.nesting ≤ n) → Begins (lexemes links) ts rest →
      Gives (Rules.chain t.operator? rule left ts) (grow left links) rest := by
  intro links
  induction links with
  | nil =>
      rintro ts left - rfl
      cases ts with
      | nil => exact Rules.gives_chain_nil.mpr ⟨rfl, rfl⟩
      | cons tok ts => exact (Rules.gives_chain_of_none (t.operator?_of_stops stops)).mpr ⟨rfl, rfl⟩
  | cons link links ih =>
      obtain ⟨b, p⟩ := link
      rintro _ left nestings ⟨tok, ts, rfl, mark, front⟩
      rw [List.forall_mem_cons] at nestings
      obtain ⟨mid, front, back⟩ := begins_append.mp front
      have found : t.operator? tok.lexeme = some (t.operator b) := by
        rw [mark, operator?_mark]
      refine (Rules.gives_chain_of_some found).mpr ⟨p.tree, mid, ?_, ih nestings.2 back⟩
      -- The operand goes no further: an operator of the tier comes next, or the end of the links.
      refine operand.complete p nestings.1 front ?_
      rw [begins_map back]
      exact stops_lexemes links stops

/-- A chain after one operand is exact for the tier when the rule for operands is. -/
theorem exact_chained (operand : Rule.Exact t.operand n rule) :
    Rule.Exact t.whole n (Rules.chained t.operator? rule) where
  sound := by
    intro ts u rest h
    obtain ⟨_, mid, read, h⟩ := Rules.gives_chained.mp h
    obtain ⟨first, rfl, nesting, front⟩ := operand.sound read
    obtain ⟨links, rfl, nestings, back⟩ := sound_chain operand h
    refine ⟨extend (t.single first) links, ?_, ?_, ?_⟩
    · rw [tree_extend, t.tree_single]
    · rw [nesting_extend_le, t.nesting_single]
      exact ⟨nesting, nestings⟩
    · rw [lexemes_extend, t.lexemes_single]
      exact begins_append.mpr ⟨mid, front, back⟩
  complete := by
    intro ts rest p nesting front stops
    obtain ⟨first, links, rfl⟩ := exists_extend p
    rw [nesting_extend_le, t.nesting_single] at nesting
    rw [lexemes_extend, t.lexemes_single] at front
    obtain ⟨mid, front, back⟩ := begins_append.mp front
    rw [tree_extend, t.tree_single, Rules.gives_chained]
    refine ⟨first.tree, mid, ?_, complete_chain operand stops nesting.2 back⟩
    refine operand.complete first nesting.1 front ?_
    rw [begins_map back]
    exact stops_lexemes links stops

end Tier

/-! ## Atoms, signs and powers -/

namespace Rules

variable {n position : Nat} {inner : Option (Rules F)} {ts rest : List (Token F)} {t : Tree F}

theorem sound_enclosed (inside : Inside n inner) (h : Gives (enclosed inner position ts) t rest) :
    ∃ p : Phrase F .sum, p.tree = t ∧ p.nesting < n ∧ Begins (p.lexemes ++ [.closing]) ts rest := by
  cases inside with
  | none => exact (not_gives_enclosed h).elim
  | some exact =>
      obtain ⟨close, closes, h⟩ := gives_enclosed.mp h
      obtain ⟨p, rfl, nesting, front⟩ := exact.sum.sound h
      refine ⟨p, rfl, Nat.lt_succ_of_le nesting, begins_append.mpr ⟨_, front, ?_⟩⟩
      exact begins_cons.mpr ⟨closes, rfl⟩

theorem complete_enclosed (inside : Inside n inner) {p : Phrase F .sum} (nesting : p.nesting < n)
    (h : Begins (p.lexemes ++ [.closing]) ts rest) :
    Gives (enclosed inner position ts) p.tree rest := by
  cases inside with
  | none => cases nesting
  | some exact =>
      obtain ⟨_, front, close, _, rfl, closes, rfl⟩ := begins_append.mp h
      refine gives_enclosed.mpr ⟨close, closes, ?_⟩
      refine exact.sum.complete p (Nat.le_of_lt_succ nesting) front ?_
      rw [List.map_cons, closes]
      rfl

theorem exact_atom (stop : Nat) (inside : Inside n inner) :
    Rule.Exact .atom n (atom stop inner) where
  sound := by
    intro ts t rest h
    cases ts with
    | nil => exact (not_gives_atom_nil h).elim
    | cons tok ts =>
        rw [gives_atom] at h
        split at h
        · next value lexeme =>
            obtain ⟨rfl, rfl⟩ := h
            exact ⟨.number value, rfl, Nat.zero_le n, tok, ts, rfl, lexeme, rfl⟩
        · next name lexeme =>
            cases named : Elementary.ofName? name with
            | none =>
                obtain ⟨leaf, rfl⟩ := (gives_named_leaf named).mp h
                exact ⟨.leaf name t leaf, rfl, Nat.zero_le n, tok, ts, rfl, lexeme, rfl⟩
            | some f =>
                obtain ⟨opening, ts, rfl, opens, _, argument, rfl⟩ := (gives_named_call named).mp h
                obtain ⟨p, rfl, nesting, front⟩ := sound_enclosed inside argument
                exact ⟨.call name f named p, rfl, nesting, tok, _, rfl, lexeme, opening, ts, rfl,
                  opens, front⟩
        · next lexeme =>
            obtain ⟨p, rfl, nesting, front⟩ := sound_enclosed inside h
            exact ⟨.group p, rfl, nesting, tok, ts, rfl, lexeme, front⟩
        · exact h.elim
  complete := by
    intro ts rest p nesting front _
    cases p with
    | number value =>
        obtain ⟨tok, ts, rfl, lexeme, rfl⟩ := front
        rw [gives_atom, lexeme]
        exact ⟨rfl, rfl⟩
    | leaf name leaf named =>
        obtain ⟨tok, ts, rfl, lexeme, rfl⟩ := front
        rw [gives_atom, lexeme]
        exact (gives_named_leaf (Elementary.ofName?_eq_none named)).mpr ⟨named, rfl⟩
    | call name f named argument =>
        obtain ⟨tok, _, rfl, lexeme, opening, ts, rfl, opens, front⟩ := front
        rw [gives_atom, lexeme]
        exact (gives_named_call named).mpr
          ⟨opening, ts, rfl, opens, _, complete_enclosed inside nesting front, rfl⟩
    | group p =>
        obtain ⟨tok, ts, rfl, lexeme, front⟩ := front
        rw [gives_atom, lexeme]
        exact complete_enclosed inside nesting front

theorem complete_sign (stop : Nat) (inside : Inside n inner) {tok : Token F}
    {apply : Tree F → Tree F} (sign : sign? tok.lexeme = some apply) {p : Phrase F .signed}
    (nesting : p.nesting < n) (front : Begins p.lexemes ts rest) :
    Gives (signedAtom stop inner (tok :: ts)) (apply p.tree) rest := by
  cases inside with
  | none => cases nesting
  | some exact =>
      have operand := exact.signed.complete p (Nat.le_of_lt_succ nesting) front
        (Category.stops_signed _)
      exact (gives_signedAtom_of_some sign).mpr ⟨p.tree, operand, rfl⟩

theorem exact_signedAtom (stop : Nat) (inside : Inside n inner) :
    Rule.Exact .signed n (signedAtom stop inner) where
  sound := by
    intro ts t rest h
    cases ts with
    | nil => exact (not_gives_signedAtom_nil h).elim
    | cons tok ts =>
        cases sign : sign? tok.lexeme with
        | none =>
            rw [gives_signedAtom_of_none sign] at h
            obtain ⟨p, rfl, nesting, front⟩ := (exact_atom stop inside).sound h
            exact ⟨.atom p, rfl, nesting, front⟩
        | some apply =>
            cases inside with
            | none => exact (not_gives_signedAtom sign h).elim
            | some exact =>
                obtain ⟨_, operand, rfl⟩ := (gives_signedAtom_of_some sign).mp h
                obtain ⟨p, rfl, nesting, front⟩ := exact.signed.sound operand
                obtain ⟨lexeme, rfl⟩ | ⟨lexeme, rfl⟩ := sign?_eq_some.mp sign
                · exact ⟨.plus p, rfl, Nat.succ_le_succ nesting, tok, ts, rfl, lexeme, front⟩
                · exact ⟨.minus p, rfl, Nat.succ_le_succ nesting, tok, ts, rfl, lexeme, front⟩
  complete := by
    intro ts rest p nesting front _
    cases p with
    | atom p =>
        have h := (exact_atom stop inside).complete p nesting front (Category.stops_atom _)
        -- The rule looks for a sign first, and an atom does not begin with one.
        cases ts with
        | nil => exact (not_gives_atom_nil h).elim
        | cons tok ts =>
            have unsigned := Phrase.sign?_eq_none_of_atom p (begins_map front).symm
            exact (gives_signedAtom_of_none unsigned).mpr h
    | plus p =>
        obtain ⟨tok, ts, rfl, lexeme, front⟩ := front
        have sign := sign?_eq_some.mpr (.inl ⟨lexeme, rfl⟩)
        exact complete_sign stop inside (p := p) sign nesting front
    | minus p =>
        obtain ⟨tok, ts, rfl, lexeme, front⟩ := front
        have sign := sign?_eq_some.mpr (.inr ⟨lexeme, rfl⟩)
        exact complete_sign stop inside (p := p) sign nesting front

theorem exact_raised (stop : Nat) (inside : Inside n inner) :
    Rule.Exact .power n (raised stop inner) where
  sound := by
    intro ts t rest h
    obtain ⟨_, mid, base, h⟩ := gives_raised.mp h
    obtain ⟨p, rfl, nestingP, front⟩ := (exact_signedAtom stop inside).sound base
    split at h
    · next start stop' ts' =>
        obtain ⟨rules, rfl, _, exponent, rfl⟩ := h
        cases inside with
        | some exact =>
            obtain ⟨q, rfl, nestingQ, back⟩ := exact.power.sound exponent
            refine ⟨.pow p q, rfl, Nat.max_le.mpr ⟨nestingP, Nat.succ_le_succ nestingQ⟩, ?_⟩
            exact begins_append.mpr ⟨_, front, begins_cons.mpr ⟨rfl, back⟩⟩
    · obtain ⟨rfl, rfl⟩ := h
      exact ⟨.signed p, rfl, nestingP, front⟩
  complete := by
    intro ts rest p nesting front stops
    have signed := exact_signedAtom stop inside
    rw [gives_raised]
    cases p with
    | signed p =>
        have base := signed.complete p nesting front (Category.stops_signed _)
        refine ⟨p.tree, rest, base, ?_⟩
        split
        · cases stops
        · exact ⟨rfl, rfl⟩
    | pow p q =>
        obtain ⟨nestingP, nestingQ⟩ := Nat.max_le.mp nesting
        obtain ⟨_, front, ⟨_, start, stop'⟩, ts', rfl, rfl, back⟩ := begins_append.mp front
        have base := signed.complete p nestingP front (Category.stops_signed _)
        refine ⟨p.tree, _, base, ?_⟩
        cases inside with
        | none => cases nestingQ
        | @some _ rules exact =>
            have exponent := exact.power.complete q (Nat.le_of_succ_le_succ nestingQ) back stops
            exact ⟨rules, rfl, q.tree, exponent, rfl⟩

/-! ## All rules -/

theorem exact_around (stop : Nat) (inside : Inside n inner) : (around stop inner).Exact n where
  sum := Tier.exact_chained (t := Tier.sums)
    (Tier.exact_chained (t := Tier.products) (exact_raised stop inside))
  power := exact_raised stop inside
  signed := exact_signedAtom stop inside

theorem exact_allowing (stop n : Nat) : (allowing (F := F) stop n).Exact n := by
  induction n with
  | zero => exact exact_around stop .none
  | succ n ih => exact exact_around stop (.some ih)

end Rules

/-! ## Names -/

theorem Elementary.ofName?_eq_some {name : String} {f : Elementary} :
    ofName? name = some f ↔
      (name, f) ∈ [("sin", sin), ("cos", cos), ("tan", tan), ("exp", exp), ("log", log),
        ("ln", log), ("sqrt", sqrt), ("abs", abs)] := by
  unfold ofName?
  split <;> simp_all [eq_comm]

theorem Tree.ofName?_eq_some {name : String} {t : Tree F} :
    ofName? name = some t ↔
      (name, t) ∈ [("x", var), ("pi", number Arith.pi), ("e", number Arith.e)] := by
  unfold ofName?
  split <;> simp_all [eq_comm]

/-! ## Formulas -/

namespace Tree

theorem ofText_eq_ok {text : String} {t : Tree F} :
    ofText text = .ok t ↔
      ∃ ts, Token.ofText text = .ok ts ∧ ofTokens text.utf8ByteSize ts = .ok t := by
  unfold ofText
  cases Token.ofText (F := F) text with
  | error e => simp [bind, Except.bind]
  | ok ts => simp [bind, Except.bind]

/-- A formula is what the rule for sums reads to the end of between one and so many tokens. -/
theorem ofTokens_eq_ok {stop : Nat} {ts : List (Token F)} {t : Tree F} :
    ofTokens stop ts = .ok t ↔ 1 ≤ ts.length ∧ ts.length ≤ maxTokens ∧
      Gives ((Rules.allowing stop maxNesting).sum ts) t [] := by
  cases ts with
  | nil => exact iff_of_false (by simp [ofTokens]) (by simp)
  | cons tok ts =>
      rw [← List.getElem?_eq_none_iff]
      unfold ofTokens
      rw [List.isEmpty_cons, if_neg Bool.false_ne_true]
      cases (tok :: ts)[maxTokens]? with
      | some late => simp
      | none =>
          change Except.bind ((Rules.allowing stop maxNesting).sum (tok :: ts)) _ = .ok t ↔ _
          cases (Rules.allowing stop maxNesting).sum (tok :: ts) with
          | error e => simp [Except.bind]
          | ok r =>
              rw [gives_ok]
              simp only [Except.bind]
              split
              · next spent => simp [spent]
              · next extra rest left => simp [left]

/-- The texts that are formulas, with their trees: their tokens are the lexemes of a phrase of the
grammar, there is only one such phrase, and the tree is the one it stands for. -/
theorem ofText_exact :
    (∀ (text : String) (t : Tree F),
      ofText text = .ok t ↔ ∃ ts, Token.ofText text = .ok ts ∧ 1 ≤ ts.length ∧ ts.length ≤ 2048 ∧
        ∃ p : Phrase F .sum, p.lexemes = ts.map Token.lexeme ∧ p.nesting ≤ 256 ∧ p.tree = t) ∧
      Function.Injective (Phrase.lexemes (F := F) (c := .sum)) ∧
      (∀ name f, Elementary.ofName? name = some f ↔
        (name, f) ∈ [("sin", .sin), ("cos", .cos), ("tan", .tan), ("exp", .exp), ("log", .log),
          ("ln", .log), ("sqrt", .sqrt), ("abs", .abs)]) ∧
      (∀ name (t : Tree F), ofName? name = some t ↔
        (name, t) ∈ [("x", .var), ("pi", .number Arith.pi), ("e", .number Arith.e)]) := by
  refine ⟨?_, Phrase.lexemes_injective .sum, fun _ _ ↦ Elementary.ofName?_eq_some,
    fun _ _ ↦ ofName?_eq_some⟩
  intro text t
  have exact := (Rules.exact_allowing (F := F) text.utf8ByteSize maxNesting).sum
  rw [ofText_eq_ok]
  constructor
  · rintro ⟨ts, scanned, h⟩
    obtain ⟨some, few, read⟩ := ofTokens_eq_ok.mp h
    obtain ⟨p, tree, nesting, front⟩ := exact.sound read
    exact ⟨ts, scanned, some, few, p, begins_all.mp front, nesting, tree⟩
  · rintro ⟨ts, scanned, some, few, p, lexemes, nesting, rfl⟩
    have read := exact.complete p nesting (begins_all.mpr lexemes) (Category.stops_nil _)
    exact ⟨ts, scanned, ofTokens_eq_ok.mpr ⟨some, few, read⟩⟩

end Tree

end ScalarSolve.Formula
