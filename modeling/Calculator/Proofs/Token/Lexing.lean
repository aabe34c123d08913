import Calculator.Proofs.Text.Motion
import Calculator.Token.Scanner

/-! # Scanning as a function of the text

    `lex` finds the token at the start of a text, without its place. Scanning
    skips the blanks and takes what `lex` finds in the text that is left, as if
    there were no lines (`Token.scan_eq`, `Scanner.gets`).

    A token never reaches over a statement terminator, so what follows a
    terminator does not matter for the tokens in front of it (`lex_append`).
-/

namespace Calculator

open Text (Cursor isBlank)

/-! ## Terminators -/

/-- Whether a character ends a statement. -/
def isTerminator (c : Char) : Bool := Token.Kind.ofSymbol? c = some .terminator

theorem isTerminator_iff {c : Char} : isTerminator c ↔ c = ';' ∨ c = '\n' := by
  unfold isTerminator Token.Kind.ofSymbol?
  split <;> simp_all

/-- The text is empty or begins with a terminator. -/
def Detached (z : List Char) : Prop := ∀ c after, z = c :: after → isTerminator c

theorem detached_nil : Detached [] := by simp [Detached]

theorem detached_cons {c : Char} {after : List Char} (h : isTerminator c) :
    Detached (c :: after) := by
  intro d ds hd
  cases hd
  exact h

section detached
variable {p : Char → Bool} {z : List Char}

theorem takeWhile_eq_nil_of_detached (hp : ∀ c, isTerminator c → p c = false) (hz : Detached z) :
    z.takeWhile p = [] := by
  cases z with
  | nil => rfl
  | cons c after => simp [hp c (hz c after rfl)]

/-- Characters that are no terminators are not looked for behind one. -/
theorem takeWhile_append_detached (hp : ∀ c, isTerminator c → p c = false) (hz : Detached z)
    (cs : List Char) : (cs ++ z).takeWhile p = cs.takeWhile p := by
  induction cs with
  | nil => exact takeWhile_eq_nil_of_detached hp hz
  | cons c cs ih => simp only [List.cons_append, List.takeWhile_cons, ih]

theorem dropWhile_append_detached (hp : ∀ c, isTerminator c → p c = false) (hz : Detached z)
    (cs : List Char) : (cs ++ z).dropWhile p = cs.dropWhile p ++ z := by
  induction cs with
  | nil =>
    cases z with
    | nil => rfl
    | cons c after => simp [hp c (hz c after rfl)]
  | cons c cs ih =>
    simp only [List.cons_append, List.dropWhile_cons, ih]
    split <;> rfl

end detached

/-! ## Numbers and words end before a terminator -/

theorem isDigit_of_isTerminator (c : Char) (h : isTerminator c) : c.isDigit = false := by
  obtain rfl | rfl := isTerminator_iff.1 h <;> decide

theorem isWordChar_of_isTerminator (c : Char) (h : isTerminator c) :
    Token.isWordChar c = false := by
  obtain rfl | rfl := isTerminator_iff.1 h <;> decide

theorem isBlank_of_isTerminator (c : Char) (h : isTerminator c) : isBlank c = false := by
  obtain rfl | rfl := isTerminator_iff.1 h <;> decide

theorem Exponent.splitSign_append {z : List Char} (hz : Detached z) (cs : List Char) :
    splitSign (cs ++ z) = ((splitSign cs).1, (splitSign cs).2 ++ z) := by
  cases cs with
  | nil =>
    cases z with
    | nil => rfl
    | cons c after =>
      obtain rfl | rfl := isTerminator_iff.1 (hz c after rfl) <;> rfl
  | cons c cs =>
    simp only [List.cons_append, splitSign]
    split <;> rfl

theorem Exponent.scan?_append {z : List Char} (hz : Detached z) (cs : List Char) :
    scan? (cs ++ z) = scan? cs := by
  cases cs with
  | nil =>
    cases z with
    | nil => rfl
    | cons c after =>
      obtain rfl | rfl := isTerminator_iff.1 (hz c after rfl) <;> rfl
  | cons c cs =>
    simp only [List.cons_append, scan?, splitSign_append hz,
      takeWhile_append_detached isDigit_of_isTerminator hz]

namespace Numeral

theorem scanFraction?_append {z : List Char} (hz : Detached z) (cs : List Char) :
    scanFraction? (cs ++ z) = scanFraction? cs := by
  cases cs with
  | nil =>
    cases z with
    | nil => rfl
    | cons c after =>
      obtain rfl | rfl := isTerminator_iff.1 (hz c after rfl) <;> rfl
  | cons c cs =>
    unfold scanFraction?
    by_cases hc : c = '.'
    · subst hc
      simp only [List.cons_append, takeWhile_append_detached isDigit_of_isTerminator hz]
    · simp [hc]

/-- The fraction is not longer than the text that it is read from. -/
theorem length_scanFraction?_le (cs : List Char) :
    (scanFraction? cs).elim 0 (·.length + 1) ≤ cs.length := by
  cases hf : scanFraction? cs with
  | none => exact Nat.zero_le _
  | some digits =>
    have hlength := congrArg List.length (scanFraction?_eq hf)
    simp only [List.cons_append, List.length_cons, List.length_append] at hlength
    simp only [Option.elim_some]
    omega

theorem scan?_append {z : List Char} (hz : Detached z) (cs : List Char) :
    scan? (cs ++ z) = scan? cs := by
  simp only [scan?, takeWhile_append_detached isDigit_of_isTerminator hz,
    dropWhile_append_detached isDigit_of_isTerminator hz, scanFraction?_append hz,
    List.drop_append_of_le_length (length_scanFraction?_le _), Exponent.scan?_append hz]

end Numeral

namespace Token

theorem scanWord?_append {z : List Char} (hz : Detached z) (cs : List Char) :
    scanWord? (cs ++ z) = scanWord? cs := by
  cases cs with
  | nil =>
    cases z with
    | nil => rfl
    | cons c after =>
      obtain rfl | rfl := isTerminator_iff.1 (hz c after rfl) <;> rfl
  | cons c cs =>
    simp only [List.cons_append, scanWord?,
      takeWhile_append_detached isWordChar_of_isTerminator hz]

/-! ## The token at the start of a text -/

/-- What stands at the start of a text. -/
inductive Lexed where
  | token (kind : Kind) (lexeme : List Char) (value : Float)
  /-- The first character begins no token. -/
  | bad (cause : Cause)

/-- The token at the start of a text. -/
def lex (keywords : Keywords) : List Char → Lexed
  | [] => .token .quit [] 0
  | first :: after =>
    match Kind.ofSymbol? first with
    | some kind => .token kind [first] 0
    | none =>
      match Numeral.scan? (first :: after), scanWord? (first :: after) with
      | some numeral, _ => .token .number numeral.text numeral.value
      | none, some word => .token (wordKind keywords (String.ofList word)) word 0
      | none, none =>
        if first = '.' then .bad (.malformedNumber first)
        else .bad (.unexpectedCharacter first)

/-- Scanning takes what stands ahead on the line. -/
theorem scanHere_eq (keywords : Keywords) (c : Cursor) :
    scanHere keywords c =
      match lex keywords c.ahead with
      | .token kind lexeme value =>
        (.ok ⟨kind, String.ofList lexeme, value, c.column⟩, c.advance lexeme.length)
      | .bad cause => reject cause c := by
  unfold scanHere lex
  cases hahead : c.ahead with
  | nil => rfl
  | cons first after =>
    dsimp only
    cases Kind.ofSymbol? first with
    | some kind => rfl
    | none =>
      dsimp only
      cases Numeral.scan? (first :: after) with
      | some numeral => rfl
      | none =>
        cases scanWord? (first :: after) with
        | some word => rfl
        | none =>
          dsimp only
          split <;> rfl

/-- Text behind a terminator does not matter for a token in front of it. -/
theorem lex_append (keywords : Keywords) {cs z : List Char} (hcs : cs ≠ []) (hz : Detached z) :
    lex keywords (cs ++ z) = lex keywords cs := by
  obtain ⟨first, after, rfl⟩ := List.exists_cons_of_ne_nil hcs
  have hnumeral := Numeral.scan?_append hz (first :: after)
  have hword := scanWord?_append hz (first :: after)
  rw [List.cons_append] at hnumeral hword ⊢
  simp only [lex, hnumeral, hword]

theorem lex_terminator (keywords : Keywords) {c : Char} (after : List Char)
    (h : isTerminator c) : lex keywords (c :: after) = .token .terminator [c] 0 := by
  have hsymbol : Kind.ofSymbol? c = some .terminator := by simpa [isTerminator] using h
  simp only [lex, hsymbol]

/-- A text that ends with a terminator holds the whole token at its start. -/
theorem lex_append_of_getLast? (keywords : Keywords) {cs : List Char} {c : Char}
    (hcs : cs.getLast? = some c) (hc : isTerminator c) (z : List Char) :
    lex keywords (cs ++ z) = lex keywords cs := by
  obtain ⟨before, rfl⟩ := List.getLast?_eq_some_iff.1 hcs
  by_cases hbefore : before = []
  · subst hbefore
    exact (lex_terminator keywords z hc).trans (lex_terminator keywords [] hc).symm
  · -- What is behind the terminator does not matter, and neither does the terminator.
    rw [List.append_assoc, List.singleton_append,
      lex_append keywords hbefore (detached_cons hc),
      lex_append keywords hbefore (detached_cons hc)]

/-! ## Scanning the text that is left -/

/-- Skipping blanks takes all of them, whatever lines they are on. -/
theorem rest_skipBlanks_eq (c : Cursor) : (skipBlanks c).rest = c.rest.dropWhile isBlank := by
  rw [rest_skipBlanks, ← Cursor.rest_refill, Cursor.rest]
  by_cases hunread : c.refill.unread = []
  · rw [hunread, List.append_nil, Text.drop_length_takeWhile]
  · obtain h | h := c.refill_line_whole
    · exact absurd h hunread
    · -- The blanks end on the line, at its line feed if not before.
      obtain ⟨before, hbefore⟩ := List.getLast?_eq_some_iff.1 h
      have hz : Detached ('\n' :: c.refill.unread) := detached_cons rfl
      have hz' : Detached ['\n'] := detached_cons rfl
      have htake := takeWhile_append_detached isBlank_of_isTerminator hz before
      have htake' := takeWhile_append_detached isBlank_of_isTerminator hz' before
      rw [hbefore, htake', List.append_assoc, List.singleton_append, ← htake,
        Text.drop_length_takeWhile]

/-- What stands ahead after the blanks is what stands at the start of the text
    after them. -/
theorem lex_ahead_skipBlanks (keywords : Keywords) (c : Cursor) :
    lex keywords (skipBlanks c).ahead = lex keywords (c.rest.dropWhile isBlank) := by
  rw [← rest_skipBlanks_eq, Cursor.rest]
  -- The token is on the current line, which ends with the text or with a line feed.
  obtain h | h := Cursor.refill_line_whole
    (c.refill.advance (c.refill.ahead.takeWhile isBlank).length)
  · rw [skipBlanks, h, List.append_nil]
  · exact (lex_append_of_getLast? keywords h rfl _).symm

/-- The lexeme stands at the start of the text. -/
theorem prefix_of_lex {keywords : Keywords} {cs lexeme : List Char} {kind : Kind} {value : Float}
    (h : lex keywords cs = .token kind lexeme value) : lexeme <+: cs := by
  unfold lex at h
  split at h
  · cases h
    exact List.nil_prefix
  · split at h
    · cases h
      exact List.prefix_append [_] _
    · split at h
      · next hn =>
        cases h
        exact Numeral.text_prefix hn
      · next hw =>
        have hword := scanWord?_prefix hw
        cases h
        exact hword.1
      · split at h <;> cases h

/-- The text is at its end or has a character for the token. -/
theorem lex_eq_token_nil {keywords : Keywords} {cs : List Char} {kind : Kind} {value : Float} :
    lex keywords cs = .token kind [] value ↔ cs = [] ∧ kind = .quit ∧ value = 0 := by
  constructor
  · intro h
    unfold lex at h
    split at h
    · cases h
      exact ⟨rfl, rfl, rfl⟩
    · split at h
      · cases h
      · -- a number or a word has at least one character
        split at h
        · next hn =>
          simp only [Lexed.token.injEq] at h
          exact absurd h.2.1 (Numeral.text_ne_nil hn)
        · next hw =>
          have hword := scanWord?_prefix hw
          simp only [Lexed.token.injEq] at h
          exact absurd h.2.1 hword.2
        · split at h <;> cases h
  · rintro ⟨rfl, rfl, rfl⟩
    rfl

/-- The character that begins no token is no terminator. -/
theorem lex_eq_bad {keywords : Keywords} {cs : List Char} {cause : Cause}
    (h : lex keywords cs = .bad cause) :
    ∃ first after, cs = first :: after ∧ isTerminator first = false ∧
      (cause = .malformedNumber first ∨ cause = .unexpectedCharacter first) := by
  unfold lex at h
  split at h
  · cases h
  · next first after =>
    split at h
    · cases h
    · next hsymbol =>
      have hfirst : isTerminator first = false := by simp [isTerminator, hsymbol]
      split at h
      · cases h
      · cases h
      · split at h
        · cases h
          exact ⟨first, after, rfl, hfirst, .inl rfl⟩
        · cases h
          exact ⟨first, after, rfl, hfirst, .inr rfl⟩

/-! ## Lexemes and terminators -/

/-- No word of the language means `kind`. -/
def Avoids (keywords : Keywords) (kind : Kind) : Prop := ∀ word, wordKind keywords word ≠ kind

/-- Only a terminator is scanned as one. -/
theorem lex_eq_terminator {keywords : Keywords} (hk : Avoids keywords .terminator)
    {cs lexeme : List Char} {value : Float}
    (h : lex keywords cs = .token .terminator lexeme value) :
    ∃ c after, cs = c :: after ∧ isTerminator c ∧ lexeme = [c] := by
  unfold lex at h
  split at h
  · cases h
  · next first after =>
    split at h
    · next hsymbol =>
      cases h
      exact ⟨first, after, rfl, by simp [isTerminator, hsymbol], rfl⟩
    · split at h
      · cases h
      · -- a word could be one if the keywords said so
        simp only [Lexed.token.injEq] at h
        exact absurd h.1 (hk _)
      · split at h <;> cases h

/-- No other token has a terminator in it. -/
theorem isTerminator_of_mem_lexeme {keywords : Keywords} {cs lexeme : List Char} {kind : Kind}
    {value : Float} (h : lex keywords cs = .token kind lexeme value) (hkind : kind ≠ .terminator)
    {c : Char} (hc : c ∈ lexeme) : isTerminator c = false := by
  -- The token is found in the text in front of the first terminator already.
  have hsplit := List.takeWhile_append_dropWhile (p := (!isTerminator ·)) (l := cs)
  have hz : Detached (cs.dropWhile (!isTerminator ·)) := by
    intro d ds hd
    have hhead := List.head?_dropWhile_not (!isTerminator ·) cs
    rw [hd] at hhead
    simpa using hhead
  by_cases hbefore : cs.takeWhile (!isTerminator ·) = []
  · -- The text is empty, or begins with a terminator and then is scanned as one.
    rw [hbefore, List.nil_append] at hsplit
    cases hcs : cs.dropWhile (!isTerminator ·) with
    | nil =>
      have hlexeme := prefix_of_lex h
      rw [← hsplit, hcs, List.prefix_nil] at hlexeme
      rw [hlexeme] at hc
      cases hc
    | cons d ds =>
      rw [← hsplit, hcs, lex_terminator keywords ds (hz d ds hcs)] at h
      cases h
      exact absurd rfl hkind
  · rw [← hsplit, lex_append keywords hbefore hz] at h
    have hbefore := List.all_eq_true.1 List.all_takeWhile c ((prefix_of_lex h).subset hc)
    simpa using hbefore

/-! ## Scanners -/

theorem scan_eq (keywords : Keywords) (c : Cursor) :
    scan keywords c =
      match lex keywords (c.rest.dropWhile isBlank) with
      | .token kind lexeme value =>
        (.ok ⟨kind, String.ofList lexeme, value, (skipBlanks c).column⟩,
          (skipBlanks c).advance lexeme.length)
      | .bad cause => reject cause (skipBlanks c) := by
  rw [scan, scanHere_eq, lex_ahead_skipBlanks]

theorem rest_of_lex_token {keywords : Keywords} {c : Cursor} {kind : Kind} {lexeme : List Char}
    {value : Float} (h : lex keywords (c.rest.dropWhile isBlank) = .token kind lexeme value) :
    ((skipBlanks c).advance lexeme.length).rest =
      (c.rest.dropWhile isBlank).drop lexeme.length := by
  rw [← rest_skipBlanks_eq]
  rw [← lex_ahead_skipBlanks] at h
  exact Cursor.rest_advance (prefix_of_lex h).length_le

theorem rest_of_lex_bad {keywords : Keywords} {c : Cursor} {cause : Cause}
    (h : lex keywords (c.rest.dropWhile isBlank) = .bad cause) :
    ((skipBlanks c).advance 1).rest = (c.rest.dropWhile isBlank).drop 1 := by
  rw [← rest_skipBlanks_eq]
  rw [← lex_ahead_skipBlanks] at h
  obtain ⟨first, after, hahead, -⟩ := lex_eq_bad h
  exact Cursor.rest_advance (by simp [hahead])

end Token

/-- What the next token of a scanner can come to. -/
inductive Scanner.Gets (s : Scanner) : Except Rejection Token × Scanner → Prop where
  /-- The token in the slot. -/
  | held {t} (slot : s.slot = some t) : Gets s (.ok t, { s with slot := none, last := some t })
  /-- The token at the start of the text, after blanks. -/
  | token {kind lexeme value t cursor} (slot : s.slot = none)
    (lexed : Token.lex s.keywords (s.cursor.rest.dropWhile isBlank) = .token kind lexeme value)
    (token_eq : t = ⟨kind, String.ofList lexeme, value, (Token.skipBlanks s.cursor).column⟩)
    (cursor_eq : cursor = (Token.skipBlanks s.cursor).advance lexeme.length)
    (rest_eq : cursor.rest = (s.cursor.rest.dropWhile isBlank).drop lexeme.length) :
    Gets s (.ok t, { s with cursor, last := some t })
  /-- No token begins there, and a character is passed over. -/
  | bad {cause place cursor} (slot : s.slot = none)
    (lexed : Token.lex s.keywords (s.cursor.rest.dropWhile isBlank) = .bad cause)
    (cursor_eq : cursor = (Token.skipBlanks s.cursor).advance 1)
    (rest_eq : cursor.rest = (s.cursor.rest.dropWhile isBlank).drop 1) :
    Gets s (.error ⟨cause, place⟩, { s with cursor, last := none })

theorem Scanner.gets (s : Scanner) : s.Gets s.get := by
  obtain ⟨cursor, keywords, slot, last⟩ := s
  unfold get
  cases slot with
  | some t => exact .held rfl
  | none =>
    dsimp only
    rw [Token.scan_eq]
    cases hlex : Token.lex keywords (cursor.rest.dropWhile isBlank) with
    | token kind lexeme value =>
      exact .token rfl hlex rfl rfl (Token.rest_of_lex_token hlex)
    | bad cause => exact .bad rfl hlex rfl (Token.rest_of_lex_bad hlex)

end Calculator
