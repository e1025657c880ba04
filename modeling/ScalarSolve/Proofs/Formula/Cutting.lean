import ScalarSolve.Proofs.Formula.Spelling

/-!
# Cutting

How a text is cut into tokens.  The tokens stand one after another, each is the longest lexeme where
it starts, and nothing but blanks stands between them.  A text that cannot be cut has been cut that
way up to a place where no blank and no lexeme stands.

Whatever is cut off a text is written in characters of one byte.  So what is counted in characters
is counted in bytes, whatever the rest of the text is made of.
-/

namespace ScalarSolve.Formula

variable {F : Type} [Arith F]

namespace Scan

/-! ## Narrow characters -/

/-- Characters of one byte each. -/
def Narrow (cs : List Char) : Prop := ∀ c ∈ cs, c.utf8Size = 1

theorem Narrow.append {cs cs' : List Char} (h : Narrow cs) (h' : Narrow cs') : Narrow (cs ++ cs') :=
  List.forall_mem_append.mpr ⟨h, h'⟩

theorem utf8Size_of_continuesLexeme {c : Char} (h : continuesLexeme c) : c.utf8Size = 1 := by
  obtain ⟨-, low⟩ := visible_of_continuesLexeme h
  rw [Char.utf8Size_eq_one_iff, UInt32.le_iff_toNat_le]
  exact Nat.le_of_lt_succ (Nat.lt_succ_of_lt low)

theorem utf8Size_of_isSpace {c : Char} (h : isSpace c) : c.utf8Size = 1 := by
  have mem := mem_of_isSpace h
  simp only [List.mem_cons, List.not_mem_nil, or_false] at mem
  rcases mem with rfl | rfl | rfl | rfl | rfl <;> rfl

theorem continuesLexeme_of_isDigit {c : Char} (h : c.isDigit) : continuesLexeme c := by
  simp [continuesLexeme, continuesName, Char.isAlphanum, h]

theorem narrow_power (p : Literal.Power) : Narrow p.text := by
  intro c mem
  apply utf8Size_of_continuesLexeme
  rw [Literal.Power.text, List.mem_cons, List.mem_append] at mem
  rcases mem with rfl | sign | digit
  · rcases p.mark_mem with eq | eq <;> rw [eq] <;> rfl
  · rcases p.sign_mem with eq | eq | eq <;> rw [eq] at sign <;> simp at sign <;> rw [sign] <;> rfl
  · exact continuesLexeme_of_isDigit (p.isDigit_digits c digit)

theorem narrow_decimal (n : Literal) : Narrow n.decimal := by
  intro c mem
  apply utf8Size_of_continuesLexeme
  rcases n.decimal_cases with ⟨-, decimal⟩ | ⟨places, digits, decimal⟩
  · exact continuesLexeme_of_isDigit (n.isDigit_whole c (decimal ▸ mem))
  · rw [decimal, List.mem_append, List.mem_cons] at mem
    rcases mem with whole | rfl | place
    · exact continuesLexeme_of_isDigit (n.isDigit_whole c whole)
    · rfl
    · exact continuesLexeme_of_isDigit (digits c place)

theorem narrow_literal (n : Literal) : Narrow n.text := by
  rcases n.text_cases with text | ⟨p, text⟩
  · exact text ▸ narrow_decimal n
  · exact text ▸ (narrow_decimal n).append (narrow_power p)

theorem narrow_of_spells {cs : List Char} {l : Lexeme F} (h : Spells cs l) : Narrow cs := by
  cases h with
  | number n => exact narrow_literal n
  | name starts continues =>
      refine List.forall_mem_cons.mpr ⟨utf8Size_of_continuesLexeme ?_, fun d mem ↦
        utf8Size_of_continuesLexeme ?_⟩
      · rcases starts with starts | rfl
        · simp [continuesLexeme, continuesName, Char.isAlphanum, starts]
        · rfl
      · rcases continues d mem with continues | rfl
        · simp [continuesLexeme, continuesName, continues]
        · rfl
  | _ =>
      simp only [Narrow, List.forall_mem_cons, List.not_mem_nil, false_imp_iff, implies_true,
        and_true]
      decide

theorem utf8EncodeChar_of_narrow {cs : List Char} (narrow : Narrow cs) :
    cs.flatMap String.utf8EncodeChar = cs.map fun c ↦ c.val.toUInt8 := by
  rw [List.map_eq_flatMap]
  exact List.flatMap_congr fun c mem ↦ String.utf8EncodeChar_eq_singleton (narrow c mem)

theorem utf8ByteSize_of_narrow {cs : List Char} (narrow : Narrow cs) :
    (String.ofList cs).utf8ByteSize = cs.length := by
  rw [← String.size_toByteArray, String.toByteArray_ofList, List.utf8Encode, List.size_toByteArray,
    utf8EncodeChar_of_narrow narrow, List.length_map]

theorem getElem?_toByteArray (bytes : List UInt8) (i : Nat) :
    bytes.toByteArray[i]? = bytes[i]? := by
  simp only [getElem?_def, List.size_toByteArray, List.getElem_toByteArray]

/-- Behind narrow characters, bytes are counted as characters are. -/
theorem byte_of_narrow {before : List Char} (narrow : Narrow before) {c : Char}
    (single : c.utf8Size = 1) (after : List Char) :
    (String.ofList (before ++ c :: after)).toUTF8[before.length]? = some c.val.toUInt8 := by
  rw [String.toUTF8_eq_toByteArray, String.toByteArray_ofList, List.utf8Encode,
    getElem?_toByteArray, List.flatMap_append, utf8EncodeChar_of_narrow narrow, List.flatMap_cons,
    String.utf8EncodeChar_eq_singleton single]
  simp

/-! ## Cuts -/

/-- From a text whose first character stands at byte `start`, tokens are cut off, up to the byte
`stop`, where `rest` is left. -/
inductive Cuts : List Char → Nat → List (Token F) → List Char → Nat → Prop
  | done (rest : List Char) (stop : Nat) : Cuts rest stop [] rest stop
  | blank {c : Char} {cs rest : List Char} {start stop : Nat} {ts : List (Token F)}
      (space : isSpace c) (more : Cuts cs (start + 1) ts rest stop) :
      Cuts (c :: cs) start ts rest stop
  | token {span cs rest : List Char} {l : Lexeme F} {start stop : Nat} {ts : List (Token F)}
      (longest : Longest span (span ++ cs) l)
      (more : Cuts cs (start + span.length) ts rest stop) :
      Cuts (span ++ cs) start (⟨l, start, start + span.length⟩ :: ts) rest stop

theorem cuts_of_lexeme {c : Char} {cs rest : List Char} {found : Lexeme F} {taken start stop : Nat}
    {ts : List (Token F)} (h : lexeme c cs = .ok (found, taken))
    (more : Cuts (cs.drop taken) (start + 1 + taken) ts rest stop) :
    Cuts (c :: cs) start (⟨found, start, start + 1 + taken⟩ :: ts) rest stop := by
  have longest := longest_of_lexeme h
  have length : start + (c :: cs.take taken).length = start + 1 + taken := by
    rw [List.length_cons, List.length_take, Nat.min_eq_left (lexeme_le h)]
    omega
  have split : c :: cs = (c :: cs.take taken) ++ cs.drop taken :=
    congrArg (c :: ·) (List.take_append_drop taken cs).symm
  rw [split] at longest ⊢
  rw [← length] at more ⊢
  exact .token longest more

/-- A text that the scanner accepts is cut to its end. -/
theorem cuts_of_ok {start : Nat} {cs : List Char} {ts : List (Token F)}
    (h : tokens start cs = .ok ts) : ∃ stop, Cuts cs start ts [] stop := by
  induction start, cs using tokens.induct (F := F) generalizing ts with
  | case1 start =>
      rw [tokens] at h
      cases h
      exact ⟨start, .done [] start⟩
  | case2 start c cs space ih =>
      rw [tokens_of_isSpace space] at h
      obtain ⟨stop, more⟩ := ih h
      exact ⟨stop, .blank space more⟩
  | case3 start c cs space cause offset read =>
      rw [tokens_of_error (eq_false_of_ne_true space) read] at h
      cases h
  | case4 start c cs space found taken read behind =>
      rename_i ih
      rw [tokens_of_lexeme (eq_false_of_ne_true space) read] at h
      cases scanned : tokens (F := F) behind (cs.drop taken) with
      | error e =>
          rw [scanned] at h
          cases h
      | ok ts' =>
          rw [scanned] at h
          cases h
          obtain ⟨stop, more⟩ := ih scanned
          exact ⟨stop, cuts_of_lexeme read more⟩

/-- A text that the scanner refuses is cut up to an offence. -/
theorem cuts_of_error {start : Nat} {cs : List Char} {e : SyntaxError F}
    (h : tokens start cs = .error e) :
    ∃ (ts : List (Token F)) (rest : List Char) (stop offset : Nat) (cause : SyntaxCause F),
      Cuts cs start ts rest stop ∧ Offence rest offset cause ∧
        e = .placed (stop + offset) cause := by
  induction start, cs using tokens.induct (F := F) generalizing e with
  | case1 start =>
      rw [tokens] at h
      cases h
  | case2 start c cs space ih =>
      rw [tokens_of_isSpace space] at h
      obtain ⟨ts, rest, stop, offset, cause, more, offence⟩ := ih h
      exact ⟨ts, rest, stop, offset, cause, .blank space more, offence⟩
  | case3 start c cs space cause offset read =>
      rw [tokens_of_error (eq_false_of_ne_true space) read] at h
      cases h
      exact ⟨[], c :: cs, start, offset, cause, .done _ start,
        offence_of_lexeme (eq_false_of_ne_true space) read, rfl⟩
  | case4 start c cs space found taken read behind =>
      rename_i ih
      rw [tokens_of_lexeme (eq_false_of_ne_true space) read] at h
      cases scanned : tokens (F := F) behind (cs.drop taken) with
      | ok ts' =>
          rw [scanned] at h
          cases h
      | error e' =>
          rw [scanned] at h
          cases h
          obtain ⟨ts, rest, stop, offset, cause, more, offence⟩ := ih scanned
          exact ⟨_, rest, stop, offset, cause, cuts_of_lexeme read more, offence⟩

namespace Cuts

variable {cs rest : List Char} {start stop : Nat} {ts : List (Token F)}

/-- What is cut off a text is narrow. -/
theorem exists_cut (h : Cuts cs start ts rest stop) :
    ∃ cut, cs = cut ++ rest ∧ stop = start + cut.length ∧ Narrow cut := by
  induction h with
  | done rest stop => exact ⟨[], rfl, rfl, by simp [Narrow]⟩
  | @blank c _ _ _ _ _ space _ ih =>
      obtain ⟨cut, rfl, rfl, narrow⟩ := ih
      refine ⟨c :: cut, rfl, ?_, List.forall_mem_cons.mpr ⟨utf8Size_of_isSpace space, narrow⟩⟩
      rw [List.length_cons]
      omega
  | @token span _ _ _ _ _ _ longest _ ih =>
      obtain ⟨cut, rfl, rfl, narrow⟩ := ih
      refine ⟨span ++ cut, (List.append_assoc ..).symm, ?_,
        (narrow_of_spells longest.spells).append narrow⟩
      rw [List.length_append]
      omega

theorem start_le (h : Cuts cs start ts rest stop) : ∀ t ∈ ts, start ≤ t.start := by
  induction h with
  | done rest stop => simp
  | blank space more ih => exact fun t mem ↦ Nat.le_of_succ_le (ih t mem)
  | token longest more ih =>
      exact List.forall_mem_cons.mpr ⟨Nat.le_refl _, fun t mem ↦ Nat.le_of_add_right_le (ih t mem)⟩

theorem ordered (h : Cuts cs start ts rest stop) : ts.Pairwise fun t t' ↦ t.stop ≤ t'.start := by
  induction h with
  | done rest stop => exact .nil
  | blank space more ih => exact ih
  | token longest more ih => exact .cons more.start_le ih

/-- Where each token stands in the text. -/
theorem exists_span (h : Cuts cs start ts rest stop) : ∀ t ∈ ts, ∃ before span after,
    cs = before ++ (span ++ after) ∧ Narrow (before ++ span) ∧ t.start = start + before.length ∧
      t.stop = t.start + span.length ∧ t.stop ≤ stop ∧ Longest span (span ++ after) t.lexeme := by
  induction h with
  | done rest stop => simp
  | @blank c _ _ _ _ _ space _ ih =>
      intro t mem
      obtain ⟨before, span, after, rfl, narrow, begins, ends, within, longest⟩ := ih t mem
      refine ⟨c :: before, span, after, rfl,
        List.forall_mem_cons.mpr ⟨utf8Size_of_isSpace space, narrow⟩, ?_, ends, within, longest⟩
      rw [List.length_cons]
      omega
  | @token front after _ _ begin _ _ longest more ih =>
      intro t mem
      rcases List.mem_cons.mp mem with rfl | mem
      · obtain ⟨cut, -, stop, -⟩ := more.exists_cut
        exact ⟨[], front, after, rfl, narrow_of_spells longest.spells, rfl, rfl,
          stop ▸ Nat.le_add_right .., longest⟩
      · obtain ⟨before, span, after, rfl, narrow, begins, ends, within, longest'⟩ := ih t mem
        refine ⟨front ++ before, span, after, (List.append_assoc ..).symm, ?_, ?_, ends, within,
          longest'⟩
        · rw [List.append_assoc]
          exact (narrow_of_spells longest.spells).append narrow
        · rw [List.length_append]
          omega

/-- What belongs to no token is a blank. -/
theorem exists_blank (h : Cuts cs start ts rest stop) {i : Nat} (low : start ≤ i) (high : i < stop)
    (outside : ∀ t ∈ ts, ¬(t.start ≤ i ∧ i < t.stop)) : ∃ before c after,
      cs = before ++ c :: after ∧ Narrow before ∧ i = start + before.length ∧ isSpace c := by
  induction h with
  | done rest stop => exact absurd low (Nat.not_le_of_lt high)
  | @blank c cs _ begin _ _ space _ ih =>
      rcases Nat.eq_or_lt_of_le low with rfl | low
      · exact ⟨[], c, cs, rfl, by simp [Narrow], rfl, space⟩
      · obtain ⟨before, d, after, rfl, narrow, place, blank⟩ := ih low high outside
        refine ⟨c :: before, d, after, rfl,
          List.forall_mem_cons.mpr ⟨utf8Size_of_isSpace space, narrow⟩, ?_, blank⟩
        rw [List.length_cons]
        omega
  | @token span _ _ _ begin _ _ longest _ ih =>
      rw [List.forall_mem_cons] at outside
      have low : begin + span.length ≤ i := by
        by_contra inside
        exact outside.1 ⟨low, Nat.lt_of_not_le inside⟩
      obtain ⟨before, d, after, rfl, narrow, place, blank⟩ := ih low high outside.2
      refine ⟨span ++ before, d, after, (List.append_assoc ..).symm,
        (narrow_of_spells longest.spells).append narrow, ?_, blank⟩
      rw [List.length_append]
      omega

end Cuts

/-- An offence lies at a character, with narrow ones before it. -/
theorem exists_character_of_offence {cs : List Char} {offset : Nat} {cause : SyntaxCause F}
    (h : Offence cs offset cause) :
    ∃ before c after, cs = before ++ c :: after ∧ Narrow before ∧ offset = before.length := by
  cases h with
  | @character c rest => exact ⟨[], c, rest, rfl, by simp [Narrow], rfl⟩
  | @point rest => exact ⟨[], '.', rest, rfl, by simp [Narrow], rfl⟩
  | @mark n c rest => exact ⟨n.text, c, rest, rfl, narrow_literal n, rfl⟩

end Scan

/-! ## Texts -/

/-- Between two bytes of a text, both of them boundaries of characters, stands `span`, and behind it
`after`. -/
def Slice (text : String) (start stop : Nat) (span after : List Char) : Prop :=
  ∃ before, text.toList = before ++ (span ++ after) ∧
    (String.ofList before).utf8ByteSize = start ∧
    (String.ofList (before ++ span)).utf8ByteSize = stop

theorem Slice.of_narrow {text : String} {before span after : List Char}
    (split : text.toList = before ++ (span ++ after)) (narrow : Scan.Narrow (before ++ span)) :
    Slice text before.length (before.length + span.length) span after :=
  ⟨before, split,
    Scan.utf8ByteSize_of_narrow fun c mem ↦ narrow c (List.mem_append_left _ mem),
    by rw [Scan.utf8ByteSize_of_narrow narrow, List.length_append]⟩

/-- A text is cut into tokens up to the byte `stop`. -/
structure Cut (text : String) (stop : Nat) (ts : List (Token F)) : Prop where
  /-- The tokens stand one behind another. -/
  ordered : ts.Pairwise fun t t' ↦ t.stop ≤ t'.start
  within : ∀ t ∈ ts, t.start < t.stop ∧ t.stop ≤ stop
  /-- A token is the longest lexeme that is spelled where it starts. -/
  longest : ∀ t ∈ ts, ∃ span after, Slice text t.start t.stop span after ∧
    Longest span (span ++ after) t.lexeme
  /-- The number of a token is the one nearest to what its literal denotes. -/
  number : ∀ t ∈ ts, ∀ v, t.lexeme = .number v → ∃ (n : Literal) (after : List Char),
    Slice text t.start t.stop n.text after ∧ v = Arith.ofDecimal n.coefficient n.exponent ∧
      (n.coefficient : ℚ) * 10 ^ n.exponent = n.rational
  /-- A byte of no token is a blank. -/
  blank : ∀ i < stop, (∀ t ∈ ts, ¬(t.start ≤ i ∧ i < t.stop)) →
    ∃ c ∈ [' ', '\t', '\n', '\x0c', '\r'], text.toUTF8[i]? = some c.val.toUInt8

/-- Where the tokens of a text stand in it. -/
theorem Scan.Cuts.exists_slice {text : String} {ts : List (Token F)} {rest : List Char} {stop : Nat}
    (h : Cuts text.toList 0 ts rest stop) : ∀ t ∈ ts, (t.start < t.stop ∧ t.stop ≤ stop) ∧
      ∃ span after, Slice text t.start t.stop span after ∧
        Longest span (span ++ after) t.lexeme := by
  intro t mem
  obtain ⟨before, span, after, split, narrow, begins, ends, within, longest⟩ := h.exists_span t mem
  have some := List.length_pos_of_ne_nil (ne_nil_of_spells longest.spells)
  rw [Nat.zero_add] at begins
  refine ⟨⟨by omega, within⟩, span, after, ?_, longest⟩
  rw [ends, begins]
  exact .of_narrow split narrow

theorem Scan.Cuts.cut {text : String} {ts : List (Token F)} {rest : List Char} {stop : Nat}
    (h : Cuts text.toList 0 ts rest stop) : Cut text stop ts where
  ordered := h.ordered
  within t mem := (h.exists_slice t mem).1
  longest t mem := (h.exists_slice t mem).2
  number t mem v holds := by
    obtain ⟨-, span, after, slice, longest⟩ := h.exists_slice t mem
    obtain ⟨n, rfl, value⟩ := literal_of_spells (holds ▸ longest.spells)
    exact ⟨n, after, slice, value.symm, n.coefficient_mul_exponent⟩
  blank i high outside := by
    obtain ⟨before, c, after, split, narrow, place, blank⟩ :=
      h.exists_blank (Nat.zero_le i) high outside
    refine ⟨c, mem_of_isSpace blank, ?_⟩
    rw [place, Nat.zero_add, ← String.ofList_toList (s := text), split]
    exact byte_of_narrow narrow (utf8Size_of_isSpace blank) after

/-- Behind narrow characters stands a boundary of characters, before the end of the text. -/
theorem isValid_of_narrow {text : String} {before after : List Char} {c : Char}
    (split : text.toList = before ++ c :: after) (narrow : Scan.Narrow before) :
    before.length < text.utf8ByteSize ∧ (String.Pos.Raw.mk before.length).IsValid text := by
  have parts : text = String.ofList before ++ String.ofList (c :: after) := by
    rw [← String.ofList_append, ← split, String.ofList_toList]
  have size := Scan.utf8ByteSize_of_narrow narrow
  constructor
  · have := c.utf8Size_pos
    rw [parts, String.utf8ByteSize_append, size, String.utf8ByteSize_ofList (c :: after),
      String.utf8Len_cons]
    omega
  · refine String.Pos.Raw.isValid_iff_exists_append.mpr ⟨_, _, parts, ?_⟩
    rw [← size]
    rfl

/-- A text is cut into the longest lexemes, from its start to its end, and only blanks are dropped.
Where that is impossible, it is cut that way up to a character that no lexeme starts with, a point
without digits, or a literal that goes on with the mark of an exponent and no exponent; the error is
placed at this character, this point or this mark. -/
theorem Token.ofText_lossless (text : String) :
    match (ofText text : Except (SyntaxError F) (List (Token F))) with
    | .ok ts => Cut text text.utf8ByteSize ts
    | .error e => ∃ (ts : List (Token F)) (start offset : Nat) (rest : List Char)
        (cause : SyntaxCause F), e = .placed (start + offset) cause ∧
          Cut text start ts ∧ Slice text start text.utf8ByteSize rest [] ∧
          Offence rest offset cause ∧ start + offset < text.utf8ByteSize ∧
          (String.Pos.Raw.mk (start + offset)).IsValid text := by
  have whole : text.utf8ByteSize = (String.ofList text.toList).utf8ByteSize := by
    rw [String.ofList_toList]
  cases scanned : (ofText text : Except (SyntaxError F) (List (Token F))) with
  | ok ts =>
      obtain ⟨stop, cuts⟩ := Scan.cuts_of_ok scanned
      obtain ⟨cut, split, rfl, narrow⟩ := cuts.exists_cut
      rw [List.append_nil] at split
      have size : text.utf8ByteSize = 0 + cut.length := by
        rw [whole, split, Scan.utf8ByteSize_of_narrow narrow, Nat.zero_add]
      exact size ▸ cuts.cut
  | error e =>
      obtain ⟨ts, rest, stop, offset, cause, cuts, offence, rfl⟩ := Scan.cuts_of_error scanned
      obtain ⟨cut, split, rfl, narrow⟩ := cuts.exists_cut
      obtain ⟨before, c, after, rfl, narrow', rfl⟩ := Scan.exists_character_of_offence offence
      have place : 0 + cut.length + before.length = (cut ++ before).length := by
        rw [List.length_append, Nat.zero_add]
      obtain ⟨inside, boundary⟩ := isValid_of_narrow
        (split.trans (List.append_assoc ..).symm) (narrow.append narrow')
      refine ⟨ts, 0 + cut.length, before.length, before ++ c :: after, cause, rfl, cuts.cut,
        ⟨cut, ?_, ?_, ?_⟩, offence, place ▸ inside, place ▸ boundary⟩
      · rw [split, List.append_nil]
      · rw [Scan.utf8ByteSize_of_narrow narrow, Nat.zero_add]
      · rw [whole, split]

end ScalarSolve.Formula
