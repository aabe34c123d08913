import Calculator.Proofs.Decimal.Language
import Calculator.Proofs.Token.Ahead

/-! # Tokens are as long as they can be

    What a token is called in the language is said here of whole texts: symbols,
    number literals and words (`Token.Spells`). Of the texts at the place of the
    cursor that are tokens of a kind, the scanner takes the longest one, and
    nothing but a place where no token begins is an error
    (`Token.scan_takes_longest`). Only the end of the text is neither
    (`Token.scan_at_end`).
-/

namespace Calculator

/-- A longest text of the language at the start of `cs`. -/
structure Longest (language : List Char → Prop) (w cs : List Char) : Prop where
  mem : language w
  start : w <+: cs
  longest : ∀ v, language v → v <+: cs → v.length ≤ w.length

namespace Token

open Text (Cursor isBlank)

/-! ## The language of tokens -/

/-- A character that is a token by itself. -/
def IsSymbol (w : List Char) : Prop := ∃ x kind, w = [x] ∧ Kind.ofSymbol? x = some kind

/-- An ASCII letter, and ASCII letters, digits and underscores behind it. -/
def IsWord (w : List Char) : Prop :=
  ∃ x after, w = x :: after ∧ x.isAlpha ∧ ∀ y ∈ after, y.isAlpha ∨ y.isDigit ∨ y = '_'

/-- The text is a token. -/
def Spells (w : List Char) : Prop := IsSymbol w ∨ IsNumber w ∨ IsWord w

theorem isWordChar_iff {y : Char} : isWordChar y ↔ y.isAlpha ∨ y.isDigit ∨ y = '_' := by
  simp [isWordChar, Char.isAlphanum, or_assoc]

variable {v w cs : List Char}

/-! ## What stands at the start of a text -/

theorem lex_of_symbol (keywords : Keywords) {x : Char} {kind : Kind}
    (hx : Kind.ofSymbol? x = some kind)
    (h : [x] <+: cs) : lex keywords cs = .token kind [x] 0 := by
  obtain ⟨after, rfl⟩ := h
  simp only [List.singleton_append, lex, hx]

/-- A number begins with a character that is no symbol. -/
theorem ofSymbol?_of_isNumber (hv : IsNumber v) (h : v <+: cs) :
    ∃ x after, cs = x :: after ∧ Kind.ofSymbol? x = none := by
  obtain ⟨n, hn, rfl⟩ := isNumber_iff.1 hv
  obtain ⟨x, after, htext, hx⟩ := hn.head
  obtain ⟨z, rfl⟩ := h
  refine ⟨x, after ++ z, by rw [htext]; rfl, ?_⟩
  obtain hdigit | rfl := hx
  · exact (not_blank_of_isDigit hdigit).2
  · rfl

theorem lex_of_number (keywords : Keywords) (hv : IsNumber v) (h : v <+: cs) :
    ∃ w value, Longest IsNumber w cs ∧ Numeral.ofText? w = some value ∧
      lex keywords cs = .token .number w value := by
  obtain ⟨n, hscan, -⟩ := Numeral.scan?_longest hv h
  have hlongest : Longest IsNumber n.text cs := by
    refine ⟨Numeral.isNumber_of_scan? hscan, Numeral.text_prefix hscan, fun u hu hcs => ?_⟩
    obtain ⟨m, hm, hle⟩ := Numeral.scan?_longest hu hcs
    rw [hscan] at hm
    cases hm
    exact hle.length_le
  refine ⟨n.text, n.value, hlongest, Numeral.ofText?_text hscan, ?_⟩
  obtain ⟨x, after, rfl, hx⟩ := ofSymbol?_of_isNumber hv h
  simp only [lex, hx, hscan]

theorem eq_of_scanWord? (h : scanWord? cs = some w) :
    ∃ x after, cs = x :: after ∧ x.isAlpha ∧ w = x :: after.takeWhile isWordChar := by
  cases cs with
  | nil => cases h
  | cons x after =>
    rw [scanWord?] at h
    split at h
    · next halpha =>
      cases h
      exact ⟨x, after, rfl, halpha, rfl⟩
    · cases h

/-- A word that is found is a word, and no word at the start of the text is longer. -/
theorem longest_of_scanWord? (h : scanWord? cs = some w) : Longest IsWord w cs := by
  have hword := scanWord?_prefix h
  obtain ⟨x, after, rfl, halpha, rfl⟩ := eq_of_scanWord? h
  refine ⟨⟨x, _, rfl, halpha, fun y hy => ?_⟩, hword.1, ?_⟩
  · exact isWordChar_iff.1 (List.all_eq_true.1 List.all_takeWhile y hy)
  · rintro _ ⟨y, behind, rfl, -, hbehind⟩ hv
    -- all that continues the shorter word is taken
    obtain ⟨rfl, z, rfl⟩ := List.cons_prefix_cons.1 hv
    rw [List.takeWhile_append_of_pos fun y hy => isWordChar_iff.2 (hbehind y hy)]
    simp

theorem lex_of_word (keywords : Keywords) (hv : IsWord v) (h : v <+: cs) :
    ∃ w, Longest IsWord w cs ∧
      lex keywords cs = .token (wordKind keywords (String.ofList w)) w 0 := by
  obtain ⟨x, after, rfl, halpha, -⟩ := hv
  obtain ⟨z, rfl⟩ := h
  obtain ⟨-, hsymbol, hdigit, hpoint⟩ := not_blank_of_isAlpha halpha
  have hword : scanWord? (x :: (after ++ z)) =
      some (x :: (after ++ z).takeWhile isWordChar) := by
    rw [scanWord?, if_pos halpha]
  refine ⟨_, longest_of_scanWord? hword, ?_⟩
  simp only [List.cons_append, lex, hsymbol, Numeral.scan?_eq_none x _ hdigit hpoint, hword]

/-- The first character is bad only where no token begins. -/
theorem lex_eq_bad_iff (keywords : Keywords) :
    (∃ cause, lex keywords cs = .bad cause) ↔ cs ≠ [] ∧ ∀ v, v <+: cs → ¬ Spells v := by
  constructor
  · rintro ⟨cause, hbad⟩
    refine ⟨?_, fun v hv => ?_⟩
    · rintro rfl
      cases hbad
    · -- a token would have been found
      rintro (⟨x, kind, rfl, hx⟩ | hnumber | hword)
      · rw [lex_of_symbol keywords hx hv] at hbad
        cases hbad
      · obtain ⟨w, value, -, -, hlex⟩ := lex_of_number keywords hnumber hv
        rw [hlex] at hbad
        cases hbad
      · obtain ⟨w, -, hlex⟩ := lex_of_word keywords hword hv
        rw [hlex] at hbad
        cases hbad
  · rintro ⟨hne, hnone⟩
    obtain ⟨x, after, rfl⟩ := List.exists_cons_of_ne_nil hne
    have hsymbol : Kind.ofSymbol? x = none := by
      cases hx : Kind.ofSymbol? x with
      | none => rfl
      | some kind => exact absurd (.inl ⟨x, kind, rfl, hx⟩) (hnone [x] (by simp))
    have hnumber : Numeral.scan? (x :: after) = none := by
      cases hscan : Numeral.scan? (x :: after) with
      | none => rfl
      | some n =>
        exact absurd (.inr (.inl (Numeral.isNumber_of_scan? hscan)))
          (hnone _ (Numeral.text_prefix hscan))
    have hword : scanWord? (x :: after) = none := by
      cases hscan : scanWord? (x :: after) with
      | none => rfl
      | some word =>
        have hlongest := longest_of_scanWord? hscan
        exact absurd (.inr (.inr hlongest.mem)) (hnone _ hlongest.start)
    simp only [lex, hsymbol, hnumber, hword]
    split <;> exact ⟨_, rfl⟩

/-! ## Scanning -/

/-- Where something but blanks is left on the line, the blanks in front of it are
    passed over, and the cursor stays on the line. -/
theorem skipBlanks_on_line {c : Cursor} (h : c.ahead.dropWhile isBlank ≠ []) :
    (skipBlanks c).line = c.line ∧ (skipBlanks c).ahead = c.ahead.dropWhile isBlank := by
  have hahead : c.ahead ≠ [] := by
    intro hnil
    rw [hnil] at h
    exact h rfl
  have hdrop :
      (c.advance (c.ahead.takeWhile isBlank).length).ahead = c.ahead.dropWhile isBlank := by
    rw [Cursor.ahead_advance, Text.drop_length_takeWhile]
  rw [skipBlanks, Cursor.refill_of_ahead hahead, Cursor.refill_of_ahead (hdrop ▸ h)]
  exact ⟨rfl, hdrop⟩

/-- Behind the blanks, on the line that is read there, the next token is the symbol,
    the longest literal or the longest word, whichever the line goes on with, and the
    cursor moves over it. A character is rejected, and passed over alone, just where
    none of them begins. At the end of the text nothing is left to reject: there the
    end of the session is given, and the cursor stays. -/
theorem scan_takes_longest (keywords : Keywords) (c : Cursor) :
    let here := skipBlanks c
    here.rest = c.rest.dropWhile isBlank ∧
    (c.ahead.dropWhile isBlank ≠ [] →
      here.line = c.line ∧ here.ahead = c.ahead.dropWhile isBlank) ∧
    (∀ x kind, [x] <+: here.ahead → Kind.ofSymbol? x = some kind →
      scan keywords c =
        (.ok { kind, lexeme := String.singleton x, column := here.column }, here.advance 1)) ∧
    (∀ v, IsNumber v → v <+: here.ahead →
      ∃ w value, Longest IsNumber w here.ahead ∧ Numeral.ofText? w = some value ∧
        scan keywords c =
          (.ok ⟨.number, String.ofList w, value, here.column⟩, here.advance w.length)) ∧
    (∀ v, IsWord v → v <+: here.ahead →
      ∃ w, Longest IsWord w here.ahead ∧
        scan keywords c =
          (.ok { kind := (keywords.lookup (String.ofList w)).getD .name, lexeme := String.ofList w,
                 column := here.column }, here.advance w.length)) ∧
    ((∃ r, (scan keywords c).1 = .error r) ↔
      here.ahead ≠ [] ∧ ∀ v, v <+: here.ahead → ¬ Spells v) ∧
    (∀ r, (scan keywords c).1 = .error r →
      r.place = some ⟨here.line, here.column⟩ ∧ (scan keywords c).2 = here.advance 1) ∧
    (here.ahead = [] →
      scan keywords c = (.ok { kind := .quit, lexeme := "", column := here.column }, here)) := by
  intro here
  have hscan : scan keywords c = scanHere keywords here := rfl
  rw [scanHere_eq] at hscan
  refine ⟨rest_skipBlanks_eq c, skipBlanks_on_line, ?_, ?_, ?_, ?_, ?_, ?_⟩
  · intro x kind h hx
    rw [hscan, lex_of_symbol keywords hx h]
    rfl
  · intro v hv h
    obtain ⟨w, value, hlongest, hvalue, hlex⟩ := lex_of_number keywords hv h
    exact ⟨w, value, hlongest, hvalue, by rw [hscan, hlex]⟩
  · intro v hv h
    obtain ⟨w, hlongest, hlex⟩ := lex_of_word keywords hv h
    exact ⟨w, hlongest, by rw [hscan, hlex]; rfl⟩
  · rw [← lex_eq_bad_iff keywords, hscan]
    cases lex keywords here.ahead with
    | token kind lexeme value => simp
    | bad cause => simp [reject]
  · intro r hr
    rw [hscan] at hr ⊢
    cases hlex : lex keywords here.ahead with
    | token kind lexeme value => rw [hlex] at hr; cases hr
    | bad cause =>
      rw [hlex] at hr
      cases hr
      exact ⟨rfl, rfl⟩
  · intro h
    rw [hscan, h]
    rfl

/-- In an empty text no token begins, and still nothing is rejected. -/
theorem scan_at_end :
    (∀ v, v <+: (skipBlanks (.ofText [])).ahead → ¬ Spells v) ∧
      ¬ ∃ r, (scan Dialect.full.keywords (.ofText [])).1 = .error r := by
  have hahead : (skipBlanks (.ofText [])).ahead = [] := rfl
  refine ⟨fun v hv => ?_, ?_⟩
  · rw [hahead, List.prefix_nil] at hv
    subst hv
    rintro (⟨x, kind, hx, -⟩ | hnumber | ⟨x, after, hx, -⟩)
    · cases hx
    · obtain ⟨x, after, hx, -⟩ := ofSymbol?_of_isNumber hnumber (List.prefix_refl [])
      cases hx
    · cases hx
  · rintro ⟨r, hr⟩
    cases hr

end Token

end Calculator
