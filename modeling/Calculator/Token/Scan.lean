import Calculator.Decimal.Numeral
import Calculator.Diagnostic.Cause
import Calculator.Text.Blank
import Calculator.Text.Cursor
import Calculator.Token.Basic

/-! # Scanning one token

    After blanks, the next token is a symbol, a number or a word, whichever the
    next character can begin, and as long as it can be. A word is a keyword if
    the table of keywords has it, and a name otherwise. Where no token begins,
    one character is passed over and rejected.
-/

namespace Calculator

/-- The words that are not names, with what they mean. -/
abbrev Keywords := List (String × Token.Kind)

namespace Token

open Text (Cursor isBlank)

/-- Whether a character can continue a word. -/
def isWordChar (c : Char) : Bool := c.isAlphanum || c = '_'

/-- The longest word at the start of a text: an ASCII letter, then ASCII
    letters, digits and underscores. -/
def scanWord? : List Char → Option (List Char)
  | c :: rest => if c.isAlpha then some (c :: rest.takeWhile isWordChar) else none
  | [] => none

/-- The meaning of a word. -/
def wordKind (keywords : Keywords) (word : String) : Kind :=
  (keywords.lookup word).getD .name

/-- Moves over blanks. -/
def skipBlanks (c : Cursor) : Cursor :=
  (c.refill.advance (c.refill.ahead.takeWhile isBlank).length).refill

/-- Passes over one character and rejects it. -/
def reject (cause : Cause) (c : Cursor) : Except Rejection Token × Cursor :=
  (.error ⟨cause, some ⟨c.line, c.column⟩⟩, c.advance 1)

/-- Scans the token that begins at the cursor itself. -/
def scanHere (keywords : Keywords) (c : Cursor) : Except Rejection Token × Cursor :=
  match c.ahead with
  | [] => (.ok { kind := .quit, lexeme := "", column := c.column }, c)
  | first :: _ =>
    match Kind.ofSymbol? first with
    | some kind =>
      (.ok { kind, lexeme := String.singleton first, column := c.column }, c.advance 1)
    | none =>
      match Numeral.scan? c.ahead, scanWord? c.ahead with
      | some numeral, _ =>
        (.ok ⟨.number, String.ofList numeral.text, numeral.value, c.column⟩,
          c.advance numeral.text.length)
      | none, some word =>
        let lexeme := String.ofList word
        (.ok { kind := wordKind keywords lexeme, lexeme, column := c.column },
          c.advance word.length)
      | none, none =>
        if first = '.' then reject (.malformedNumber first) c
        else reject (.unexpectedCharacter first) c

/-- Scans the next token. -/
def scan (keywords : Keywords) (c : Cursor) : Except Rejection Token × Cursor :=
  scanHere keywords (skipBlanks c)

/-! ## Every token takes characters -/

/-- A word is read off the start of the text. -/
theorem scanWord?_prefix {cs word : List Char} (h : scanWord? cs = some word) :
    word <+: cs ∧ word ≠ [] := by
  cases cs with
  | nil => simp [scanWord?] at h
  | cons c rest =>
    simp only [scanWord?] at h
    split at h
    · cases h
      exact ⟨List.cons_prefix_cons.2 ⟨rfl, List.takeWhile_prefix _⟩, by simp⟩
    · simp at h

/-- Skipping blanks takes just the blanks. -/
theorem rest_skipBlanks (c : Cursor) :
    (skipBlanks c).rest = c.rest.drop (c.refill.ahead.takeWhile isBlank).length := by
  have h : (c.refill.ahead.takeWhile isBlank).length ≤ c.refill.ahead.length :=
    (List.takeWhile_sublist _).length_le
  simp [skipBlanks, Cursor.rest_advance h]

/-- Passing over a nonempty part of the line leaves less of the text. -/
theorem length_rest_advance_lt {c : Cursor} {lexeme : List Char} (h : lexeme <+: c.ahead)
    (hne : lexeme ≠ []) : (c.advance lexeme.length).rest.length < c.rest.length := by
  have hle := h.length_le
  have hrest := c.length_ahead_le
  have hpos := List.length_pos_iff.2 hne
  rw [Cursor.rest_advance hle, List.length_drop]
  omega

/-- The outcome of scanning leaves less of the text, unless it is the end. -/
theorem length_rest_scanHere (keywords : Keywords) (c : Cursor) :
    (∃ t, (scanHere keywords c).1 = .ok t ∧ t.isEnd ∧ (scanHere keywords c).2 = c) ∨
      ((∀ t, (scanHere keywords c).1 = .ok t → t.isEnd = false) ∧
        (scanHere keywords c).2.rest.length < c.rest.length) := by
  unfold scanHere
  split
  · exact .inl ⟨_, rfl, by simp [isEnd], rfl⟩
  · next first after hahead =>
    have hfirst : [first] <+: c.ahead := by simp [hahead]
    have hone : (c.advance 1).rest.length < c.rest.length :=
      length_rest_advance_lt hfirst (List.cons_ne_nil _ _)
    refine .inr ?_
    split
    · refine ⟨?_, hone⟩
      intro t ht
      simp only [Except.ok.injEq] at ht
      subst ht
      simp [isEnd]
    · split
      · next numeral hn =>
        refine ⟨?_, length_rest_advance_lt (Numeral.text_prefix hn) (Numeral.text_ne_nil hn)⟩
        intro t ht
        simp only [Except.ok.injEq] at ht
        subst ht
        simp [isEnd]
      · next word _ hw =>
        have hword := scanWord?_prefix hw
        refine ⟨?_, length_rest_advance_lt hword.1 hword.2⟩
        intro t ht
        simp only [Except.ok.injEq] at ht
        subst ht
        simp [isEnd, hword.2]
      · split <;> exact ⟨by simp [reject], hone⟩

theorem length_rest_scan (keywords : Keywords) (c : Cursor) :
    (scan keywords c).2.rest.length ≤ c.rest.length ∧
      ((∃ t, (scan keywords c).1 = .ok t ∧ t.isEnd) ∨
        ((∀ t, (scan keywords c).1 = .ok t → t.isEnd = false) ∧
          (scan keywords c).2.rest.length < c.rest.length)) := by
  have hskip : (skipBlanks c).rest.length ≤ c.rest.length := by
    rw [rest_skipBlanks, List.length_drop]
    omega
  unfold scan
  cases length_rest_scanHere keywords (skipBlanks c) with
  | inl h =>
    obtain ⟨t, ht, hend, hc⟩ := h
    exact ⟨by rw [hc]; exact hskip, .inl ⟨t, ht, hend⟩⟩
  | inr h => exact ⟨by omega, .inr ⟨h.1, by omega⟩⟩

end Token

end Calculator
