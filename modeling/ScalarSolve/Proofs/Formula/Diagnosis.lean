import ScalarSolve.Arith.Double
import ScalarSolve.Proofs.Formula.Beginning
import ScalarSolve.Proofs.Formula.Parentheses
import ScalarSolve.Proofs.Formula.Recognition

/-!
# What syntax errors tell

An error points at the place where the tokens stop being the beginning of a formula.  The rules find
it because they never give up on tokens that can go on: a rule stops only before a lexeme that does
not make its phrase longer, and every token it has taken is allowed at its stage.
-/

namespace ScalarSolve.Formula

open Reading

variable {F : Type} [Arith F]

/-! ## Explanations -/

/-- The causes that find a lexeme at fault. -/
inductive SyntaxCause.Blames : SyntaxCause F → Lexeme F → Prop
  | unexpected (l : Lexeme F) : Blames (.unexpected l) l
  | notClosed (l : Lexeme F) : Blames (.notClosed l) l
  | unknownName (name : String) : Blames (.unknownName name) (.name name)

/-- What an error says about tokens that begin at a stage: a token is not allowed where it stands,
or all of them are allowed but the formula does not end with them.  A function without its
parenthesis and a nesting too many are reported before either is known. -/
inductive Explains (stop : Nat) (s : Stage) (ts : List (Token F)) : SyntaxError F → Prop
  | refused {cause : SyntaxCause F} {front back : List (Token F)} {tok : Token F} {s' : Stage}
      (split : ts = front ++ tok :: back) (begins : s.behind (front.map Token.lexeme) = some s')
      (refuses : s'.after tok.lexeme = none) (blames : cause.Blames tok.lexeme) :
      Explains stop s ts (.placed tok.start cause)
  | ended {s' : Stage} (begins : s.behind (ts.map Token.lexeme) = some s') :
      Explains stop s ts (.placed stop .endOfInput)
  | unclosed {front back : List (Token F)} {tok : Token F} {s' : Stage}
      (split : ts = front ++ tok :: back) (opens : tok.lexeme = .opening)
      (matched : Matched (back.map Token.lexeme))
      (begins : s.behind (ts.map Token.lexeme) = some s') :
      Explains stop s ts (.placed tok.start .unclosed)
  | argumentRequired (position : Nat) (function : String) :
      Explains stop s ts (.placed position (.argumentRequired function))
  | nestedTooDeeply (position : Nat) : Explains stop s ts (.placed position .nestedTooDeeply)

namespace Explains

variable {stop : Nat} {s s' : Stage} {ts : List (Token F)} {e : SyntaxError F}

/-- The first token is not allowed. -/
theorem head {cause : SyntaxCause F} {tok : Token F} (refuses : s.after tok.lexeme = none)
    (blames : cause.Blames tok.lexeme) : Explains stop s (tok :: ts) (.placed tok.start cause) :=
  .refused (List.nil_append _).symm rfl refuses blames

/-- Allowed tokens in front. -/
theorem prepend (front : List (Token F)) (begins : s.behind (front.map Token.lexeme) = some s')
    (h : Explains stop s' ts e) : Explains stop s (front ++ ts) e := by
  have behind (more : List (Token F)) : s.behind ((front ++ more).map Token.lexeme) =
      s'.behind (more.map Token.lexeme) := by
    rw [List.map_append, Stage.behind_append, begins, Option.bind_some]
  cases h with
  | @refused _ front' back tok _ split begins' refuses blames =>
      have whole : front ++ ts = (front ++ front') ++ tok :: back := by
        rw [split, List.append_assoc]
      exact .refused whole ((behind front').trans begins') refuses blames
  | ended begins' => exact .ended ((behind ts).trans begins')
  | @unclosed front' back tok _ split opens matched begins' =>
      have whole : front ++ ts = (front ++ front') ++ tok :: back := by
        rw [split, List.append_assoc]
      exact .unclosed whole opens matched ((behind ts).trans begins')
  | argumentRequired position function => exact .argumentRequired position function
  | nestedTooDeeply position => exact .nestedTooDeeply position

theorem cons {tok : Token F} (allowed : s.after tok.lexeme = some s') (h : Explains stop s' ts e) :
    Explains stop s (tok :: ts) e := by
  refine h.prepend [tok] ?_
  rw [List.map_singleton, Stage.behind_cons, allowed]
  rfl

end Explains

omit [Arith F] in
theorem Begins.exists_front {ls : List (Lexeme F)} {ts rest : List (Token F)}
    (h : Begins ls ts rest) : ∃ front, ts = front ++ rest ∧ front.map Token.lexeme = ls := by
  induction ls generalizing ts with
  | nil => exact ⟨[], h, rfl⟩
  | cons l ls ih =>
      obtain ⟨tok, ts, rfl, rfl, h⟩ := h
      obtain ⟨front, rfl, rfl⟩ := ih h
      exact ⟨tok :: front, rfl, rfl⟩

/-- An operand that was read in front. -/
theorem Explains.behind_reading {stop d n : Nat} {c : Category} {rule : Rule F}
    {ts : List (Token F)} {e : SyntaxError F} (exact : Rule.Exact c n rule)
    {r : Reading F ts.length} (read : rule ts = .ok r)
    (h : Explains stop (.operator d) r.rest e) : Explains stop (.operand d) ts e := by
  obtain ⟨p, -, -, front⟩ := exact.sound ⟨r, read, rfl, rfl⟩
  obtain ⟨front, split, lexemes⟩ := front.exists_front
  rw [split]
  exact h.prepend front (lexemes ▸ p.behind_lexemes d)

omit [Arith F] in
theorem Reading.map_eq_error {n m : Nat} {outcome : Except (SyntaxError F) (Reading F n)}
    {f : Reading F n → Reading F m} {e : SyntaxError F} :
    outcome.map f = .error e ↔ outcome = .error e := by
  cases outcome <;> simp [Except.map]

/-! ## Rules -/

/-- A rule reads as far as a phrase of the category goes, and its errors explain themselves. -/
structure Rule.Diagnoses (stop : Nat) (c : Category) (rule : Rule F) : Prop where
  stops : ∀ {ts t rest}, Gives (rule ts) t rest → c.Stops (rest.map Token.lexeme)
  explains : ∀ {ts e}, rule ts = .error e → ∀ d, Explains stop (.operand d) ts e

/-- The rules that a nesting may start with do so. -/
structure Rules.Diagnoses (stop : Nat) (rules : Rules F) : Prop where
  sum : Rule.Diagnoses stop .sum rules.sum
  power : Rule.Diagnoses stop .power rules.power
  signed : Rule.Diagnoses stop .signed rules.signed

variable {stop n : Nat}

/-! ## Tiers -/

namespace Tier

variable {t : Tier F} {rule : Rule F}

theorem stops_chain (operand : Rule.Diagnoses stop t.operand rule) {left u : Tree F}
    {ts rest : List (Token F)} (h : Gives (Rules.chain t.operator? rule left ts) u rest)
    (stops : t.operand.Stops (ts.map Token.lexeme)) : t.whole.Stops (rest.map Token.lexeme) := by
  induction length : ts.length using Nat.strongRecOn generalizing ts left with
  | ind size ih =>
      cases ts with
      | nil =>
          obtain ⟨-, rfl⟩ := Rules.gives_chain_nil.mp h
          exact Category.stops_nil _
      | cons tok ts =>
          cases found : t.operator? tok.lexeme with
          | none =>
              obtain ⟨-, rfl⟩ := (Rules.gives_chain_of_none found).mp h
              rw [List.map_cons, Category.stops_cons] at stops ⊢
              rw [t.continues_whole, stops, found]
              rfl
          | some op =>
              obtain ⟨right, mid, read, h⟩ := (Rules.gives_chain_of_some found).mp h
              have shorter : mid.length < size := by
                have := read.length_lt
                rw [← length, List.length_cons]
                omega
              exact ih mid.length shorter h (operand.stops read) rfl

/-- In a chain an operator comes first. -/
theorem explains_chain (marks : ∀ b d, (Stage.operator d).after (t.mark b) = some (.operand d))
    (exact : Rule.Exact t.operand n rule) (operand : Rule.Diagnoses stop t.operand rule)
    {left : Tree F} {ts : List (Token F)} {e : SyntaxError F}
    (h : Rules.chain t.operator? rule left ts = .error e) (d : Nat) :
    Explains stop (.operator d) ts e := by
  induction length : ts.length using Nat.strongRecOn generalizing ts left with
  | ind size ih =>
      cases ts with
      | nil =>
          rw [Rules.chain] at h
          cases h
      | cons tok ts =>
          rw [Rules.chain] at h
          split at h
          · cases h
          · next op found =>
              obtain ⟨b, mark, rfl⟩ := t.operator?_eq_some.mp found
              have allowed : (Stage.operator d).after tok.lexeme = some (.operand d) :=
                mark ▸ marks b d
              split at h
              · next e' failed =>
                  cases h
                  exact .cons allowed (operand.explains failed d)
              · next right read =>
                  rw [Reading.map_eq_error] at h
                  have shorter : right.rest.length < size := by
                    have := right.within
                    rw [← length, List.length_cons]
                    omega
                  exact .cons allowed (.behind_reading exact read (ih _ shorter h rfl))

theorem diagnoses_chained
    (marks : ∀ b d, (Stage.operator d).after (t.mark b) = some (.operand d))
    (exact : Rule.Exact t.operand n rule) (operand : Rule.Diagnoses stop t.operand rule) :
    Rule.Diagnoses stop t.whole (Rules.chained t.operator? rule) where
  stops := by
    intro ts u rest h
    obtain ⟨first, mid, read, h⟩ := Rules.gives_chained.mp h
    exact stops_chain operand h (operand.stops read)
  explains := by
    intro ts e h d
    unfold Rules.chained at h
    split at h
    · next e' failed =>
        cases h
        exact operand.explains failed d
    · next first read =>
        rw [Reading.map_eq_error] at h
        exact .behind_reading exact read (explains_chain marks exact operand h d)

end Tier

/-! ## Atoms, signs and powers -/

namespace Rules

variable {inner : Option (Rules F)} {ts : List (Token F)} {tok : Token F} {e : SyntaxError F}
  {d : Nat}

/-- Behind a sum comes nothing else but an operator or, inside a nesting, its end. -/
theorem refuses_of_stops {l : Lexeme F} {ls : List (Lexeme F)}
    (stops : Category.sum.Stops (l :: ls)) (other : l = .closing → d = 0) :
    (Stage.operator d).after l = none := by
  cases l with
  | plus | minus | star | slash | caret => cases stops
  | closing =>
      obtain rfl := other rfl
      rfl
  | number | name | opening => rfl

theorem explains_enclosed (inside : Inside n inner)
    (diagnoses : ∀ rules, inner = some rules → rules.Diagnoses stop) (tok : Token F)
    (opens : tok.lexeme = .opening) {s : Stage}
    (allowed : s.after (.opening : Lexeme F) = some (.operand (d + 1)))
    (h : enclosed inner tok.start ts = .error e) : Explains stop s (tok :: ts) e := by
  rw [← opens] at allowed
  cases inside with
  | none =>
      cases h
      exact .nestedTooDeeply _
  | @some _ rules exact =>
      have sum := (diagnoses rules rfl).sum
      change Except.bind (rules.sum ts) _ = .error e at h
      cases read : rules.sum ts with
      | error e' =>
          rw [read] at h
          cases h
          exact .cons allowed (sum.explains read (d + 1))
      | ok body =>
          have given : Gives (rules.sum ts) body.tree body.rest := ⟨body, read, rfl, rfl⟩
          rw [read] at h
          simp only [Except.bind] at h
          split at h
          · next ends =>
              cases h
              obtain ⟨p, -, -, front⟩ := exact.sum.sound given
              rw [ends, begins_all] at front
              have begins : s.behind ((tok :: ts).map Token.lexeme) = some (.operator (d + 1)) := by
                rw [List.map_cons, Stage.behind_cons, allowed, Option.bind_some, ← front]
                exact p.behind_lexemes (d + 1)
              exact .unclosed (List.nil_append _).symm opens (front ▸ p.matched) begins
          · next t rest behind =>
              split at h
              · cases h
              · next other =>
                  cases h
                  have stops := sum.stops given
                  rw [behind, List.map_cons] at stops
                  refine .cons allowed (.behind_reading exact.sum read ?_)
                  rw [behind]
                  exact .head (refuses_of_stops stops fun closes ↦ (other closes).elim)
                    (.notClosed _)

theorem explains_named (inside : Inside n inner)
    (diagnoses : ∀ rules, inner = some rules → rules.Diagnoses stop) {name : String}
    (lexeme : tok.lexeme = .name name) (h : named inner tok.start name ts = .error e) :
    Explains stop (.operand d) (tok :: ts) e := by
  unfold named at h
  split at h
  · next f function =>
      have allowed : (Stage.operand d).after tok.lexeme = some (.argument d) :=
        lexeme ▸ Stage.after_function function
      split at h
      · next start stop' ts =>
          rw [Reading.map_eq_error] at h
          exact .cons allowed
            (explains_enclosed inside diagnoses ⟨.opening, start, stop'⟩ rfl rfl h)
      · cases h
        exact .argumentRequired _ _
  · next noFunction =>
      split at h
      · cases h
      · next noLeaf =>
          cases h
          have unknown : (Stage.operand d).after tok.lexeme = none :=
            lexeme ▸ Stage.after_unknown noFunction noLeaf
          exact .head unknown (lexeme ▸ .unknownName name)

/-- An atom is wanted where an operand comes next, but not in front of a sign. -/
theorem explains_atom (inside : Inside n inner)
    (diagnoses : ∀ rules, inner = some rules → rules.Diagnoses stop)
    (unsigned : sign? tok.lexeme = none) (h : atom stop inner (tok :: ts) = .error e) :
    Explains stop (.operand d) (tok :: ts) e := by
  obtain ⟨lexeme, start, stop'⟩ := tok
  cases lexeme with
  | number value => cases h
  | name name => exact explains_named inside diagnoses rfl h
  | opening =>
      refine explains_enclosed inside diagnoses ⟨.opening, start, stop'⟩ rfl rfl ?_
      exact Reading.map_eq_error.mp h
  | plus | minus => cases unsigned
  | star | slash | caret | closing =>
      cases h
      exact .head rfl (.unexpected _)

theorem diagnoses_signedAtom (inside : Inside n inner)
    (diagnoses : ∀ rules, inner = some rules → rules.Diagnoses stop) :
    Rule.Diagnoses stop .signed (signedAtom stop inner) where
  stops := fun _ ↦ Category.stops_signed _
  explains := by
    intro ts e h d
    cases ts with
    | nil =>
        cases h
        exact .ended rfl
    | cons tok ts =>
        cases sign : sign? tok.lexeme with
        | none =>
            simp only [signedAtom, sign] at h
            exact explains_atom inside diagnoses sign h
        | some apply =>
            have allowed : (Stage.operand d).after tok.lexeme = some (.operand d) := by
              obtain ⟨lexeme, -⟩ | ⟨lexeme, -⟩ := sign?_eq_some.mp sign
              all_goals
                rw [lexeme]
                rfl
            simp only [signedAtom, sign] at h
            cases inside with
            | none =>
                cases h
                exact .nestedTooDeeply _
            | @some _ rules exact =>
                have operand := (diagnoses rules rfl).signed
                exact .cons allowed (operand.explains (Reading.map_eq_error.mp h) d)

theorem diagnoses_raised (inside : Inside n inner)
    (diagnoses : ∀ rules, inner = some rules → rules.Diagnoses stop) :
    Rule.Diagnoses stop .power (raised stop inner) where
  stops := by
    intro ts t rest h
    obtain ⟨base, mid, -, h⟩ := gives_raised.mp h
    split at h
    · next start stop' ts' =>
        obtain ⟨rules, rfl, exponent, read, -⟩ := h
        exact (diagnoses rules rfl).power.stops read
    · next plain =>
        obtain ⟨-, rfl⟩ := h
        cases mid with
        | nil => exact Category.stops_nil _
        | cons tok ts' =>
            obtain ⟨lexeme, start, stop'⟩ := tok
            cases lexeme with
            | caret => exact (plain start stop' ts' rfl).elim
            | number | name | plus | minus | star | slash | opening | closing => rfl
  explains := by
    intro ts e h d
    have signed := diagnoses_signedAtom inside diagnoses
    unfold raised at h
    split at h
    · next e' failed =>
        cases h
        exact signed.explains failed d
    · next base read =>
        split at h
        · next start stop' ts' behind =>
            refine .behind_reading (exact_signedAtom stop inside) read ?_
            rw [behind]
            cases inside with
            | none =>
                cases h
                exact .nestedTooDeeply _
            | @some _ rules exact =>
                have exponent := (diagnoses rules rfl).power
                exact .cons rfl (exponent.explains (Reading.map_eq_error.mp h) d)
        · cases h

/-! ## All rules -/

theorem diagnoses_around (inside : Inside n inner)
    (diagnoses : ∀ rules, inner = some rules → rules.Diagnoses stop) :
    (around stop inner).Diagnoses stop where
  sum := Tier.diagnoses_chained (t := Tier.sums) (by rintro (_ | _) d <;> rfl)
    (Tier.exact_chained (t := Tier.products) (exact_raised stop inside))
    (Tier.diagnoses_chained (t := Tier.products) (by rintro (_ | _) d <;> rfl)
      (exact_raised stop inside) (diagnoses_raised inside diagnoses))
  power := diagnoses_raised inside diagnoses
  signed := diagnoses_signedAtom inside diagnoses

theorem diagnoses_allowing (stop n : Nat) : (allowing (F := F) stop n).Diagnoses stop := by
  induction n with
  | zero => exact diagnoses_around .none (fun _ h ↦ nomatch h)
  | succ n ih =>
      refine diagnoses_around (.some (exact_allowing stop n)) ?_
      rintro _ ⟨⟩
      exact ih

end Rules

/-! ## Messages -/

/-- Texts differ that have different characters, or an end, in one place. -/
theorem ne_of_differ {s t : String} (n : Nat) (h : s.toList[n]? ≠ t.toList[n]?) : s ≠ t :=
  mt (congrArg (·.toList[n]?)) h

namespace Lexeme

omit [Arith F]

variable [Numeral F] {l : Lexeme F} {message : String}

/-- The message says that the lexeme is not allowed. -/
def RefusedIn (l : Lexeme F) (message : String) : Prop :=
  message = "unexpected " ++ l.describe ∨ message = "expected ')' but found " ++ l.describe ∨
    ∃ name, l = .name name ∧ message = "unknown identifier '" ++ name ++ "'"

theorem refusedIn_message {cause : SyntaxCause F} (blames : cause.Blames l) :
    l.RefusedIn cause.message := by
  cases blames with
  | unexpected => exact .inl rfl
  | notClosed => exact .inr (.inl rfl)
  | unknownName name => exact .inr (.inr ⟨name, rfl, rfl⟩)

theorem not_refusedIn (unexpected : message ≠ "unexpected " ++ l.describe)
    (notClosed : ∀ found, message ≠ "expected ')' but found " ++ found)
    (unknownName : ∀ name, message ≠ "unknown identifier '" ++ name) : ¬l.RefusedIn message := by
  rintro (h | h | ⟨name, -, h⟩)
  · exact unexpected h
  · exact notClosed _ h
  · rw [String.append_assoc] at h
    exact unknownName _ h

theorem not_refusedIn_endOfInput : ¬l.RefusedIn "unexpected end of input" := by
  refine not_refusedIn ?_ (fun _ ↦ ne_of_differ 0 (by simp))
    (fun _ ↦ ne_of_differ 2 (by simp))
  -- Lexemes are described by words that do not begin with the letter of this end.
  refine ne_of_differ 11 ?_
  cases l <;> simp [describe]

theorem not_refusedIn_unclosed : ¬l.RefusedIn "unclosed '(' at end of input" :=
  not_refusedIn (ne_of_differ 2 (by simp)) (fun _ ↦ ne_of_differ 0 (by simp))
    (fun _ ↦ ne_of_differ 2 (by simp))

theorem not_refusedIn_argumentRequired (function : String) :
    ¬l.RefusedIn ("function '" ++ function ++ "' requires a parenthesised argument") :=
  not_refusedIn (ne_of_differ 0 (by simp)) (fun _ ↦ ne_of_differ 0 (by simp))
    (fun _ ↦ ne_of_differ 0 (by simp))

theorem not_refusedIn_nestedTooDeeply : ¬l.RefusedIn "expression nested too deeply" :=
  not_refusedIn (ne_of_differ 0 (by simp)) (fun _ ↦ ne_of_differ 3 (by simp))
    (fun _ ↦ ne_of_differ 0 (by simp))

end Lexeme

namespace Explains

variable [Numeral F] {s : Stage} {ts : List (Token F)} {e : SyntaxError F}

theorem of_refusedIn {l : Lexeme F} (h : Explains stop s ts e) (refused : l.RefusedIn e.detail) :
    ∃ front tok back s', ts = front ++ tok :: back ∧ tok.lexeme.RefusedIn e.detail ∧
      e.position = some tok.start ∧ s.behind (front.map Token.lexeme) = some s' ∧
      s'.after tok.lexeme = none := by
  cases h with
  | refused split begins refuses blames =>
      exact ⟨_, _, _, _, split, Lexeme.refusedIn_message blames, rfl, begins, refuses⟩
  | ended => exact (Lexeme.not_refusedIn_endOfInput refused).elim
  | unclosed => exact (Lexeme.not_refusedIn_unclosed refused).elim
  | argumentRequired => exact (Lexeme.not_refusedIn_argumentRequired _ refused).elim
  | nestedTooDeeply => exact (Lexeme.not_refusedIn_nestedTooDeeply refused).elim

theorem of_endOfInput (h : Explains stop s ts e) (detail : e.detail = "unexpected end of input") :
    e.position = some stop ∧ ∃ s', s.behind (ts.map Token.lexeme) = some s' := by
  cases h with
  | @refused cause _ _ tok _ _ _ _ blames =>
      have refused : tok.lexeme.RefusedIn (SyntaxError.placed tok.start cause).detail :=
        Lexeme.refusedIn_message blames
      exact (Lexeme.not_refusedIn_endOfInput (detail ▸ refused)).elim
  | ended begins => exact ⟨rfl, _, begins⟩
  | unclosed =>
      change "unclosed '(' at end of input" = _ at detail
      exact (ne_of_differ 2 (by simp) detail).elim
  | argumentRequired position function =>
      change "function '" ++ function ++ "' requires a parenthesised argument" = _ at detail
      exact (ne_of_differ 0 (by simp) detail).elim
  | nestedTooDeeply =>
      change "expression nested too deeply" = _ at detail
      exact (ne_of_differ 0 (by simp) detail).elim

theorem of_unclosed (h : Explains stop s ts e)
    (detail : e.detail = "unclosed '(' at end of input") :
    (∃ front tok back, ts = front ++ tok :: back ∧ tok.lexeme = .opening ∧
      Matched (back.map Token.lexeme) ∧ e.position = some tok.start) ∧
      ∃ s', s.behind (ts.map Token.lexeme) = some s' := by
  cases h with
  | @refused cause _ _ tok _ _ _ _ blames =>
      have refused : tok.lexeme.RefusedIn (SyntaxError.placed tok.start cause).detail :=
        Lexeme.refusedIn_message blames
      exact (Lexeme.not_refusedIn_unclosed (detail ▸ refused)).elim
  | ended =>
      change "unexpected end of input" = _ at detail
      exact (ne_of_differ 2 (by simp) detail).elim
  | unclosed split opens matched begins => exact ⟨⟨_, _, _, split, opens, matched, rfl⟩, _, begins⟩
  | argumentRequired position function =>
      change "function '" ++ function ++ "' requires a parenthesised argument" = _ at detail
      exact (ne_of_differ 0 (by simp) detail).elim
  | nestedTooDeeply =>
      change "expression nested too deeply" = _ at detail
      exact (ne_of_differ 0 (by simp) detail).elim

end Explains

/-! ## Errors of formulas -/

namespace Tree

/-- Tokens that are no formula are explained from the start. -/
theorem explains_ofTokens {ts : List (Token F)} {e : SyntaxError F} (nonempty : 1 ≤ ts.length)
    (few : ts.length ≤ maxTokens) (h : ofTokens stop ts = .error e) :
    Explains stop (.operand 0) ts e := by
  have sum := (Rules.diagnoses_allowing (F := F) stop maxNesting).sum
  have exact := (Rules.exact_allowing (F := F) stop maxNesting).sum
  unfold ofTokens at h
  rw [List.isEmpty_eq_false_iff.mpr (List.ne_nil_of_length_pos nonempty), if_neg Bool.false_ne_true,
    List.getElem?_eq_none few] at h
  change Except.bind ((Rules.allowing stop maxNesting).sum ts) _ = .error e at h
  cases read : (Rules.allowing stop maxNesting).sum ts with
  | error e' =>
      rw [read] at h
      cases h
      exact sum.explains read 0
  | ok r =>
      have stops := sum.stops ⟨r, read, rfl, rfl⟩
      rw [read] at h
      simp only [Except.bind] at h
      split at h
      · cases h
      · next tok rest behind =>
          cases h
          rw [behind, List.map_cons] at stops
          refine .behind_reading exact read ?_
          rw [behind]
          exact .head (Rules.refuses_of_stops stops fun _ ↦ rfl) (.unexpected _)

/-- The tokens of a text that is no formula, where its error points.  A token that the message finds
at fault is the first with which the tokens are no longer viable; at the end of the text, all tokens
are viable, and what is reported is the end itself or the last parenthesis that was left open. -/
theorem ofText_error_located [Numeral F] {text : String} {ts : List (Token F)} {e : SyntaxError F}
    (scanned : Token.ofText text = .ok ts) (nonempty : 1 ≤ ts.length) (few : ts.length ≤ 2048)
    (failed : ofText text = .error e) :
    (∀ l : Lexeme F, l.RefusedIn e.detail →
      ∃ k tok, ts[k]? = some tok ∧ tok.lexeme.RefusedIn e.detail ∧ e.position = some tok.start ∧
        Viable ((ts.take k).map Token.lexeme) ∧ ¬Viable ((ts.take (k + 1)).map Token.lexeme)) ∧
      (e.detail = "unexpected end of input" →
        Viable (ts.map Token.lexeme) ∧ e.position = some text.utf8ByteSize) ∧
      (e.detail = "unclosed '(' at end of input" → Viable (ts.map Token.lexeme) ∧
        ∃ k tok, ts[k]? = some tok ∧ tok.lexeme = .opening ∧
          Matched ((ts.drop (k + 1)).map Token.lexeme) ∧ e.position = some tok.start) := by
  have read : ofTokens text.utf8ByteSize ts = .error e := by
    rw [ofText, scanned] at failed
    exact failed
  have explains := explains_ofTokens nonempty few read
  refine ⟨fun l refused ↦ ?_, fun detail ↦ ?_, fun detail ↦ ?_⟩
  · obtain ⟨front, tok, back, s, rfl, refused, position, begins, refuses⟩ :=
      explains.of_refusedIn refused
    refine ⟨front.length, tok, by simp, refused, position, ?_, ?_⟩
    · rw [List.take_left]
      exact viable_iff.mpr ⟨s, begins⟩
    · have upto : (front ++ tok :: back).take (front.length + 1) = front ++ [tok] := by
        rw [List.take_length_add_append]
        rfl
      rw [upto, List.map_append]
      exact not_viable_concat begins refuses
  · obtain ⟨position, begins⟩ := explains.of_endOfInput detail
    exact ⟨viable_iff.mpr begins, position⟩
  · obtain ⟨⟨front, tok, back, rfl, opens, matched, position⟩, begins⟩ :=
      explains.of_unclosed detail
    refine ⟨viable_iff.mpr begins, front.length, tok, by simp, opens, ?_, position⟩
    have behind : (front ++ tok :: back).drop (front.length + 1) = back := by simp
    rw [behind]
    exact matched

/-- On doubles, `(x` is the beginning of formulas and `(x y` of none, and the error is at the `y`.
-/
theorem ofText_error_located_juxtaposed :
    ofText "(x y" = .error (⟨.notClosed (.name "y"), some 3⟩ : SyntaxError Float) ∧
      Viable ([.opening, .name "x"] : List (Lexeme Float)) ∧
      ¬Viable ([.opening, .name "x", .name "y"] : List (Lexeme Float)) := by
  have scanned : Token.ofText "(x y" =
      .ok ([⟨.opening, 0, 1⟩, ⟨.name "x", 1, 2⟩, ⟨.name "y", 3, 4⟩] : List (Token Float)) := by
    decide +kernel
  have failed : ofText "(x y" =
      .error (⟨.notClosed (.name "y"), some 3⟩ : SyntaxError Float) := by
    decide +kernel
  refine ⟨failed, ?_⟩
  obtain ⟨k, tok, found, -, position, viable, refused⟩ :=
    (ofText_error_located scanned (by decide) (by decide) failed).1 (.name "y") (.inr (.inl rfl))
  match k with
  | 0 | 1 =>
      cases found
      cases position
  | 2 => exact ⟨viable, refused⟩
  | k + 3 => cases found

end Tree

end ScalarSolve.Formula
