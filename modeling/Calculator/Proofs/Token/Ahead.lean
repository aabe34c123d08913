import Calculator.Proofs.Decimal.Literal
import Calculator.Proofs.Dialect

/-! # The text ahead of a scanner

    `s.At z` says that the text `z` comes next in the scanner `s`, in the full
    dialect. What is at the start of the text is the next token: a character that
    is a token by itself (`At.symbol`), a literal (`At.number`), a word
    (`At.word`) or the end (`At.endOfText`), provided that the text behind it
    does not continue it.
-/

namespace Calculator

open Text (isBlank)

/-! ## Characters that tokens begin with -/

theorem toNat_of_isDigit {c : Char} (h : c.isDigit) : 48 ≤ c.toNat ∧ c.toNat ≤ 57 := by
  simpa [Char.isDigit, UInt32.le_iff_toNat_le] using h

theorem toNat_of_isAlpha {c : Char} (h : c.isAlpha) :
    65 ≤ c.toNat ∧ c.toNat ≤ 90 ∨ 97 ≤ c.toNat ∧ c.toNat ≤ 122 := by
  obtain hupper | hlower := Bool.or_eq_true_iff.1 (h : (c.isUpper || c.isLower) = true)
  · have hrange : 65 ≤ c.val ∧ c.val ≤ 90 := of_decide_eq_true hupper
    exact .inl hrange
  · obtain ⟨hlow, hhigh⟩ := Bool.and_eq_true_iff.1 hlower
    have hrange : 97 ≤ c.val ∧ c.val ≤ 122 := ⟨of_decide_eq_true hlow, of_decide_eq_true hhigh⟩
    exact .inr hrange

/-- The blanks of the ASCII range stand in front of its graphic characters. -/
theorem not_isBlank_of_graphic {c : Char} (h : 33 ≤ c.toNat ∧ c.toNat ≤ 126) :
    isBlank c = false := by
  have hspace : Text.isSpace c = false := by
    simp only [Text.isSpace, Text.whiteSpace, List.contains_eq_mem, List.mem_cons,
      List.not_mem_nil, or_false, decide_eq_false_iff_not]
    omega
  simp [isBlank, hspace]

/-- A digit is no blank and no token by itself. -/
theorem not_blank_of_isDigit {c : Char} (h : c.isDigit) :
    isBlank c = false ∧ Token.Kind.ofSymbol? c = none := by
  have hrange := toNat_of_isDigit h
  refine ⟨not_isBlank_of_graphic (by omega), ?_⟩
  unfold Token.Kind.ofSymbol?
  split <;> first | rfl | exact absurd h (by decide)

/-- A letter is no blank, no token by itself and no part of a number. -/
theorem not_blank_of_isAlpha {c : Char} (h : c.isAlpha) :
    isBlank c = false ∧ Token.Kind.ofSymbol? c = none ∧ c.isDigit = false ∧ c ≠ '.' := by
  have hrange := toNat_of_isAlpha h
  refine ⟨not_isBlank_of_graphic (by omega), ?_, ?_, ?_⟩
  · unfold Token.Kind.ofSymbol?
    split <;> first | rfl | exact absurd h (by decide)
  · refine Bool.eq_false_iff.2 fun hdigit => ?_
    have hrange' := toNat_of_isDigit hdigit
    omega
  · rintro rfl
    exact absurd h (by decide)

/-- A token by itself is no blank and no part of a number. -/
theorem delimits_of_symbol {c : Char} {kind : Token.Kind} (h : Token.Kind.ofSymbol? c = some kind) :
    isBlank c = false ∧ ∀ z, Numeral.Delimits (c :: z) := by
  have hc : isBlank c = false ∧ c.isDigit = false ∧ c ≠ '.' ∧ c ≠ 'e' ∧ c ≠ 'E' := by
    unfold Token.Kind.ofSymbol? at h
    split at h <;> first | decide | cases h
  exact ⟨hc.1, fun z => Numeral.delimits_cons hc.2⟩

/-- No blank continues a word. -/
theorem not_isWordChar_of_isBlank {c : Char} (h : isBlank c) : Token.isWordChar c = false := by
  refine Bool.eq_false_iff.2 fun hword => ?_
  have hgraphic : isBlank c = false := by
    simp only [Token.isWordChar, Char.isAlphanum, Bool.or_eq_true, decide_eq_true_eq] at hword
    obtain (halpha | hdigit) | rfl := hword
    · exact (not_blank_of_isAlpha halpha).1
    · exact (not_blank_of_isDigit hdigit).1
    · decide
  rw [hgraphic] at h
  cases h

/-- Nothing at the start of the text could continue a word. -/
def Token.EndsWord (z : List Char) : Prop :=
  ∀ c after, z = c :: after → Token.isWordChar c = false

theorem Token.endsWord_cons {c : Char} {after : List Char} (h : Token.isWordChar c = false) :
    Token.EndsWord (c :: after) := by
  rintro _ _ ⟨⟩
  exact h

/-- Blanks end a word. -/
theorem Token.endsWord_append {w z : List Char} (hw : ∀ c ∈ w, isBlank c)
    (hz : w = [] → Token.EndsWord z) : Token.EndsWord (w ++ z) := by
  cases w with
  | nil => exact hz rfl
  | cons d w => exact Token.endsWord_cons (not_isWordChar_of_isBlank (hw d List.mem_cons_self))

/-- A word is found in front of text that does not continue it. -/
theorem lex_word (keywords : Keywords) {cs z : List Char} (hcs : Token.scanWord? cs = some cs)
    (hz : Token.EndsWord z) :
    (cs ++ z).dropWhile isBlank = cs ++ z ∧
      Token.lex keywords (cs ++ z) =
        .token (Token.wordKind keywords (String.ofList cs)) cs 0 := by
  cases cs with
  | nil => cases hcs
  | cons c after =>
    rw [Token.scanWord?] at hcs
    split at hcs
    · next halpha =>
      obtain ⟨hblank, hsymbol, hdigit, hpoint⟩ := not_blank_of_isAlpha halpha
      have hrun : ∀ d ∈ after, Token.isWordChar d := by
        rw [← (List.cons.inj (Option.some.inj hcs)).2]
        exact List.all_eq_true.1 List.all_takeWhile
      have htake : (after ++ z).takeWhile Token.isWordChar = after := by
        rw [List.takeWhile_append_of_pos hrun]
        cases z with
        | nil => exact List.append_nil _
        | cons d behind => rw [List.takeWhile_cons, hz d behind rfl]; exact List.append_nil _
      have hword : Token.scanWord? (c :: (after ++ z)) = some (c :: after) := by
        rw [Token.scanWord?, if_pos halpha, htake]
      refine ⟨by simp [hblank], ?_⟩
      rw [List.cons_append]
      simp only [Token.lex, hsymbol, Numeral.scan?_eq_none c _ hdigit hpoint, hword]
    · cases hcs

/-! ## Scanning in the full dialect -/

/-- In the full dialect the text `z` comes next, up to blanks in front of it. -/
structure Scanner.At (s : Scanner) (z : List Char) : Prop where
  slot : s.slot = none
  keywords : s.keywords = Dialect.full.keywords
  rest : s.cursor.rest.dropWhile isBlank = z.dropWhile isBlank

namespace Scanner.At

variable {s : Scanner} {z : List Char}

theorem ofText (z : List Char) : (Scanner.ofText Dialect.full.keywords z).At z where
  slot := rfl
  keywords := rfl
  rest := by rw [Scanner.ofText, Text.Cursor.rest_ofText]

/-- Blanks in front of the text do not matter. -/
theorem of_blank {c : Char} (h : s.At (c :: z)) (hc : isBlank c) : s.At z :=
  ⟨h.slot, h.keywords, by rw [h.rest, List.dropWhile_cons, if_pos hc]⟩

theorem of_blanks {w : List Char} (h : s.At (w ++ z)) (hw : ∀ c ∈ w, isBlank c) : s.At z :=
  ⟨h.slot, h.keywords, by rw [h.rest, List.dropWhile_append_of_pos hw]⟩

/-- The token at the start of the text comes next. -/
theorem get (h : s.At z) (hz : z.dropWhile isBlank = z) {kind : Token.Kind}
    {lexeme : List Char} {value : Float}
    (hlex : Token.lex Dialect.full.keywords z = .token kind lexeme value) :
    ∃ t s', s.get = (.ok t, s') ∧ t.kind = kind ∧ t.lexeme = String.ofList lexeme ∧
      t.value = value ∧ s'.At (z.drop lexeme.length) := by
  have hrest := h.rest.trans hz
  have hgets := s.gets
  generalize hget : s.get = result at hgets
  cases hgets with
  | held slot => rw [h.slot] at slot; cases slot
  | token slot lexed token_eq cursor_eq rest_eq =>
    rw [h.keywords, hrest, hlex] at lexed
    cases lexed
    rw [hrest] at rest_eq
    subst token_eq
    exact ⟨_, _, rfl, rfl, rfl, rfl, slot, h.keywords, congrArg _ rest_eq⟩
  | bad slot lexed cursor_eq rest_eq =>
    rw [h.keywords, hrest, hlex] at lexed
    cases lexed

/-- A character that is a token by itself. -/
theorem symbol {c : Char} {k : Token.Kind} (h : s.At (c :: z))
    (hc : Token.Kind.ofSymbol? c = some k) :
    ∃ t s', s.get = (.ok t, s') ∧ t.kind = k ∧ s'.At z := by
  have hlex : Token.lex Dialect.full.keywords (c :: z) = .token k [c] 0 := by
    simp only [Token.lex, hc]
  obtain ⟨t, s', hget, hkind, -, -, hs'⟩ :=
    h.get (by simp [(delimits_of_symbol hc).1]) hlex
  exact ⟨t, s', hget, hkind, hs'⟩

/-- A literal in front of text that does not continue it. -/
theorem number {n : Numeral} (h : s.At (n.text ++ z)) (hn : n.WellFormed)
    (hz : Numeral.Delimits z) :
    ∃ t s', s.get = (.ok t, s') ∧ t.kind = .number ∧ t.value = n.value ∧ s'.At z := by
  have hscan := Numeral.scan?_text_append hn hz
  obtain ⟨c, after, htext, hhead⟩ := hn.head
  have hc : isBlank c = false ∧ Token.Kind.ofSymbol? c = none := by
    obtain hdigit | rfl := hhead
    · exact not_blank_of_isDigit hdigit
    · decide
  have hlex : Token.lex Dialect.full.keywords (n.text ++ z) = .token .number n.text n.value := by
    rw [htext, List.cons_append] at hscan ⊢
    simp only [Token.lex, hc.2, hscan, htext]
  obtain ⟨t, s', hget, hkind, -, hvalue, hs'⟩ := h.get (by simp [htext, hc.1]) hlex
  rw [List.drop_left] at hs'
  exact ⟨t, s', hget, hkind, hvalue, hs'⟩

/-- A word in front of text that does not continue it. -/
theorem word {cs : List Char} (h : s.At (cs ++ z)) (hcs : Token.scanWord? cs = some cs)
    (hz : Token.EndsWord z) :
    ∃ t s', s.get = (.ok t, s') ∧
      t.kind = Token.wordKind Dialect.full.keywords (String.ofList cs) ∧
      t.lexeme = String.ofList cs ∧ s'.At z := by
  obtain ⟨hblank, hlex⟩ := lex_word Dialect.full.keywords hcs hz
  obtain ⟨t, s', hget, hkind, hlexeme, -, hs'⟩ := h.get hblank hlex
  rw [List.drop_left] at hs'
  exact ⟨t, s', hget, hkind, hlexeme, hs'⟩

/-- The end of the text, which stays there. -/
theorem endOfText (h : s.At []) : ∃ t s', s.get = (.ok t, s') ∧ t.isEnd ∧ s'.At [] := by
  have hlex : Token.lex Dialect.full.keywords [] = .token .quit [] 0 := rfl
  obtain ⟨t, s', hget, hk, hlexeme, -, hs'⟩ := h.get rfl hlex
  exact ⟨t, s', hget, by simp [Token.isEnd, hk, hlexeme], hs'⟩

end Scanner.At

end Calculator
