import Calculator.Proofs.Token.Longest

/-! # What tokens are made of

    The token at the start of a text is the end, a symbol, a literal or a word
    (`Token.Lexes`). So no token holds a blank (`not_isBlank_of_spells`), and a
    symbol is part of another token only as the sign of an exponent
    (`sign_of_mem_lexeme`).
-/

namespace Calculator.Token

open Text (isBlank)

variable {keywords : Keywords} {cs w : List Char} {kind : Kind} {value : Float}

/-! ## Forms of tokens -/

/-- The ways in which a text can begin with a token. -/
inductive Lexes (keywords : Keywords) (cs : List Char) : Kind → List Char → Float → Prop where
  | ended (h : cs = []) : Lexes keywords cs .quit [] 0
  | symbol {x : Char} {kind : Kind} (h : Kind.ofSymbol? x = some kind) :
    Lexes keywords cs kind [x] 0
  | number {n : Numeral} (h : Numeral.scan? cs = some n) :
    Lexes keywords cs .number n.text n.value
  | word {w : List Char} (h : scanWord? cs = some w) :
    Lexes keywords cs (wordKind keywords (String.ofList w)) w 0

theorem lexes_of_lex (h : lex keywords cs = .token kind w value) :
    Lexes keywords cs kind w value := by
  unfold lex at h
  split at h
  · cases h
    exact .ended rfl
  · split at h
    · next hx =>
      cases h
      exact .symbol hx
    · split at h
      · next hn =>
        cases h
        exact .number hn
      · next hw =>
        cases h
        exact .word hw
      · split at h <;> cases h

/-! ## Characters of tokens -/

theorem char_of_isMantissa (h : IsMantissa w) {x : Char} (hx : x ∈ w) : x.isDigit ∨ x = '.' := by
  obtain h | ⟨h, hf⟩ | h := h
  · exact .inl (h.2 x hx)
  · obtain hx | hx := List.mem_append.1 hx
    · exact .inl (h.2 x hx)
    · obtain rfl | hx := List.mem_cons.1 hx
      · exact .inr rfl
      · exact .inl (hf x hx)
  · obtain rfl | hx := List.mem_cons.1 hx
    · exact .inr rfl
    · exact .inl (h.2 x hx)

theorem char_of_isExponent (h : IsExponent w) {x : Char} (hx : x ∈ w) :
    x.isDigit ∨ x = 'e' ∨ x = 'E' ∨ x = '+' ∨ x = '-' := by
  obtain ⟨hletter, h⟩ | ⟨hletter, hsign, h⟩ := h <;> obtain rfl | hx := List.mem_cons.1 hx
  · exact .inr (hletter.imp_right .inl)
  · exact .inl (h.2 x hx)
  · exact .inr (hletter.imp_right .inl)
  · obtain rfl | hx := List.mem_cons.1 hx
    · exact .inr (.inr (.inr hsign))
    · exact .inl (h.2 x hx)

theorem char_of_isNumber (h : IsNumber w) {x : Char} (hx : x ∈ w) :
    x.isDigit ∨ x = '.' ∨ x = 'e' ∨ x = 'E' ∨ x = '+' ∨ x = '-' := by
  obtain hm | ⟨hm, he⟩ := h
  · exact (char_of_isMantissa hm hx).imp_right .inl
  · obtain hx | hx := List.mem_append.1 hx
    · exact (char_of_isMantissa hm hx).imp_right .inl
    · exact (char_of_isExponent he hx).imp_right .inr

theorem char_of_isWord (h : IsWord w) {x : Char} (hx : x ∈ w) : isWordChar x := by
  obtain ⟨y, after, rfl, hy, hafter⟩ := h
  rw [isWordChar_iff]
  obtain rfl | hx := List.mem_cons.1 hx
  · exact .inl hy
  · exact hafter x hx

/-- A character of a word is no blank and no token by itself. -/
theorem not_blank_of_isWordChar {x : Char} (h : isWordChar x) :
    isBlank x = false ∧ Kind.ofSymbol? x = none := by
  obtain halpha | hdigit | rfl := isWordChar_iff.1 h
  · exact ⟨(not_blank_of_isAlpha halpha).1, (not_blank_of_isAlpha halpha).2.1⟩
  · exact not_blank_of_isDigit hdigit
  · decide

theorem not_isBlank_of_spells (h : Spells w) : ∀ x ∈ w, isBlank x = false := by
  intro x hx
  obtain ⟨y, kind, rfl, hy⟩ | hnumber | hword := h
  · rw [List.mem_singleton] at hx
    subst hx
    exact (delimits_of_symbol hy).1
  · obtain hdigit | rfl | rfl | rfl | rfl | rfl := char_of_isNumber hnumber hx
    · exact (not_blank_of_isDigit hdigit).1
    all_goals decide
  · exact (not_blank_of_isWordChar (char_of_isWord hword hx)).1

theorem spells_of_lexes (h : Lexes keywords cs kind w value) (hne : w ≠ []) : Spells w := by
  cases h with
  | ended => exact absurd rfl hne
  | symbol hx => exact .inl ⟨_, _, rfl, hx⟩
  | number hn => exact .inr (.inl (Numeral.isNumber_of_scan? hn))
  | word hw => exact .inr (.inr (longest_of_scanWord? hw).mem)

/-- A token with a symbol in it is that symbol, or a number with a sign. -/
theorem sign_of_mem_lexeme (h : lex keywords cs = .token kind w value) {x : Char} (hx : x ∈ w)
    {sought : Kind} (hsought : Kind.ofSymbol? x = some sought) :
    kind = sought ∨ kind = .number ∧ (sought = .plus ∨ sought = .minus) := by
  cases lexes_of_lex h with
  | ended => cases hx
  | symbol hy =>
    rw [List.mem_singleton] at hx
    subst hx
    rw [hy] at hsought
    exact .inl (Option.some.inj hsought)
  | number hn =>
    refine .inr ⟨rfl, ?_⟩
    obtain hdigit | rfl | rfl | rfl | rfl | rfl :=
      char_of_isNumber (Numeral.isNumber_of_scan? hn) hx
    · rw [(not_blank_of_isDigit hdigit).2] at hsought
      cases hsought
    all_goals cases hsought
    · exact .inl rfl
    · exact .inr rfl
  | word hw =>
    rw [(not_blank_of_isWordChar (char_of_isWord (longest_of_scanWord? hw).mem hx)).2] at hsought
    cases hsought

theorem not_symbol_of_isBlank {x : Char} (h : isBlank x) : Kind.ofSymbol? x ≠ some kind := by
  intro hsymbol
  rw [(delimits_of_symbol hsymbol).1] at h
  cases h

/-- A symbol is never rejected. -/
theorem not_symbol_of_lex_bad {x : Char} {cause : Cause} (h : lex keywords (x :: cs) = .bad cause) :
    Kind.ofSymbol? x ≠ some kind := fun hsymbol =>
  ((lex_eq_bad_iff keywords).1 ⟨cause, h⟩).2 [x] (List.prefix_append [x] cs)
    (.inl ⟨x, kind, rfl, hsymbol⟩)

/-- Where no word means `kind`, only its symbols are scanned as tokens of this kind. -/
theorem symbol_of_lex (hk : Avoids keywords kind) {y : Char} (hy : Kind.ofSymbol? y = some kind)
    (h : lex keywords cs = .token kind w value) :
    ∃ x, Kind.ofSymbol? x = some kind ∧ w = [x] := by
  have hkind : kind ≠ .quit ∧ kind ≠ .number := by
    unfold Kind.ofSymbol? at hy
    split at hy <;> cases hy <;> decide
  cases lexes_of_lex h with
  | ended => exact absurd rfl hkind.1
  | symbol hx => exact ⟨_, hx, rfl⟩
  | number => exact absurd rfl hkind.2
  | word => exact absurd rfl (hk _)

end Calculator.Token
