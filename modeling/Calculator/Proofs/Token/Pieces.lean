import Calculator.Proofs.Reading.Places

/-! # A text in pieces

    A scanner that is asked for one token after the other, whether or not a call
    was rejected, takes the text apart: every call takes a `Piece`, blanks and
    behind them a lexeme or a rejected character, until nothing but blanks is
    left. From then on every call gives the end of the text.

    Nothing is lost and nothing is added: the pieces make up the text, each one
    stands where its call says, and on a line they stand one behind the other
    (`Scanner.pieces_partition_text`).
-/

namespace Calculator

open Text (Cursor IsLine isBlank)

/-! ## Calls -/

/-- The token that stands for the end of the text. -/
def Token.endOfText : Token := { kind := .quit, lexeme := "", column := 0 }

namespace Scanner

/-- The scanner after `n` calls, whatever they gave. -/
def afterGets : Nat → Scanner → Scanner
  | 0, s => s
  | n + 1, s => afterGets n s.get.2

/-- What call number `n` gives, counted from zero. -/
def given (s : Scanner) (n : Nat) : Except Rejection Token := (s.afterGets n).get.1

@[simp] theorem given_zero (s : Scanner) : s.given 0 = s.get.1 := rfl

@[simp] theorem given_succ (s : Scanner) (n : Nat) : s.given (n + 1) = s.get.2.given n := rfl

theorem given_add (s : Scanner) (n m : Nat) : s.given (n + m) = (s.afterGets n).given m := by
  induction n generalizing s with
  | zero => rw [Nat.zero_add]; rfl
  | succ n ih => rw [Nat.succ_add]; exact ih s.get.2

end Scanner

/-! ## Pieces -/

/-- What a call says of a lexeme that stands in a column of a line. -/
def Reports (lexeme line : List Char) (column : Nat) : Except Rejection Token → Prop
  | .ok t => t.lexeme.toList = lexeme ∧ t.column = column
  | .error r => r.place = some ⟨line, column⟩ ∧
      ∃ x, lexeme = [x] ∧ (r.cause = .malformedNumber x ∨ r.cause = .unexpectedCharacter x)

/-- What one call takes from the text. -/
structure Piece (text : List Char) where
  blanks : List Char
  /-- The characters of the token, or the rejected one. -/
  lexeme : List Char
  result : Except Rejection Token
  /-- The text in front of the line that the lexeme stands on. -/
  before : List Char
  line : List Char
  /-- The text behind that line. -/
  after : List Char
  column : Nat
  isBlank_of_mem : ∀ c ∈ blanks, isBlank c
  lexeme_ne_nil : lexeme ≠ []
  isLine : IsLine text before line after
  lexeme_prefix : lexeme <+: line.drop column
  reports : Reports lexeme line column result

namespace Piece

variable {text : List Char}

/-- The characters of the piece. -/
def chars (p : Piece text) : List Char := p.blanks ++ p.lexeme

/-- The text in front of the lexeme. -/
def front (p : Piece text) : List Char := p.before ++ p.line.take p.column

/-- The first piece begins behind the text `front`, and each of the others behind
    the one in front of it. -/
def Consecutive : List Char → List (Piece text) → Prop
  | _, [] => True
  | front, p :: ps => p.front = front ++ p.blanks ∧ Consecutive (front ++ p.chars) ps

/-- The second piece stands on another line than the first one, or behind it. -/
def LeftOf (p q : Piece text) : Prop :=
  p.before = q.before → p.column < q.column ∧ p.column + p.lexeme.length ≤ q.column

/-- The piece is what a call takes of `rest` when it leaves `left`. -/
def Divides (p : Piece text) (rest left : List Char) : Prop :=
  p.chars ++ left = rest ∧ p.front ++ (p.lexeme ++ left) = text

/-- A piece that was taken behind the text `front` stands behind its blanks there. -/
theorem Divides.front_eq {p : Piece text} {rest left front : List Char} (h : p.Divides rest left)
    (hfront : front ++ rest = text) : p.front = front ++ p.blanks := by
  have hplace : p.front ++ (p.lexeme ++ left) = front ++ p.blanks ++ (p.lexeme ++ left) :=
    calc p.front ++ (p.lexeme ++ left) = front ++ (p.chars ++ left) := by rw [h.2, h.1, hfront]
      _ = front ++ p.blanks ++ (p.lexeme ++ left) := by simp [chars]
  exact List.append_cancel_right hplace

theorem Divides.length_lt {p : Piece text} {rest left : List Char} (h : p.Divides rest left) :
    left.length < rest.length := by
  have hpos := List.length_pos_iff.2 p.lexeme_ne_nil
  rw [← h.1, chars, List.length_append, List.length_append]
  omega

theorem length_front (p : Piece text) : p.front.length = p.before.length + p.column := by
  have hlength := p.lexeme_prefix.length_le
  have hpos := List.length_pos_iff.2 p.lexeme_ne_nil
  rw [List.length_drop] at hlength
  rw [front, List.length_append, List.length_take]
  omega

/-- Behind the text `front` all pieces stand behind it. -/
theorem Consecutive.length_le {front : List Char} {ps : List (Piece text)}
    (h : Consecutive front ps) : ∀ p ∈ ps, front.length ≤ p.front.length := by
  induction ps generalizing front with
  | nil => simp
  | cons q ps ih =>
    intro p hp
    rcases List.mem_cons.1 hp with rfl | hp
    · simp [h.1]
    · have hle := ih h.2 p hp
      rw [List.length_append] at hle
      omega

/-- On a line, consecutive pieces stand from left to right and do not overlap. -/
theorem Consecutive.pairwise {front : List Char} {ps : List (Piece text)}
    (h : Consecutive front ps) : ps.Pairwise LeftOf := by
  induction ps generalizing front with
  | nil => exact .nil
  | cons p ps ih =>
    refine .cons (fun q hq hline => ?_) (ih h.2)
    -- The lexeme of `p` is part of the text in front of `q`.
    have hle := h.2.length_le q hq
    have hpos := List.length_pos_iff.2 p.lexeme_ne_nil
    rw [chars, ← List.append_assoc, List.length_append, ← h.1, length_front, length_front,
      hline] at hle
    omega

end Piece

/-! ## One call -/

/-- The cursor is in the text, and once it has reported the end it stays at the
    beginning of an empty line. -/
structure Text.Cursor.Settled (text : List Char) (c : Cursor) : Prop where
  in_text : c.In text
  column_of_ended : c.ended = true → c.column = 0

namespace Text.Cursor.Settled

variable {text : List Char} {c : Cursor}

theorem ofText (text : List Char) : (Cursor.ofText text).Settled text :=
  ⟨in_ofText text, nofun⟩

theorem refill (h : c.Settled text) : c.refill.Settled text := by
  refine ⟨h.in_text.refill, ?_⟩
  unfold Cursor.refill
  split
  · exact h.column_of_ended
  · intro _
    rfl

/-- At the end there is nothing ahead to be passed over. -/
theorem advance (h : c.Settled text) {n : Nat} (hn : n ≤ c.ahead.length) :
    (c.advance n).Settled text := by
  refine ⟨h.in_text.advance n, fun hended => ?_⟩
  have hzero : n = 0 := by simpa [ahead, (c.ended_empty hended).1] using hn
  rw [hzero]
  exact h.column_of_ended hended

theorem skipBlanks (h : c.Settled text) : (Token.skipBlanks c).Settled text :=
  (h.refill.advance (List.takeWhile_sublist _).length_le).refill

/-- Where no character is left the cursor stands at the beginning of a line. -/
theorem column_refill (h : c.Settled text) (hrest : c.rest = []) : c.refill.column = 0 := by
  have hahead := ahead_refill_eq_nil.2 hrest
  unfold Cursor.refill at hahead ⊢
  split at hahead
  · next hstay =>
    rw [if_pos hstay]
    have hcolumn : ¬ c.column < c.line.length := by
      simpa [ahead, List.drop_eq_nil_iff] using hahead
    exact h.column_of_ended (by simpa [hcolumn] using hstay)
  · next hnext => rw [if_neg hnext]

end Text.Cursor.Settled

namespace Scanner

variable {text : List Char} {s : Scanner}

/-- The scanner is in the text, with an empty slot. -/
structure Settled (text : List Char) (s : Scanner) : Prop where
  slot : s.slot = none
  cursor : s.cursor.Settled text

/-- A lexeme that stands behind the blanks is a piece of the text. -/
theorem Settled.piece (h : s.Settled text) {lexeme : List Char} (result : Except Rejection Token)
    (hne : lexeme ≠ []) (hahead : lexeme <+: (Token.skipBlanks s.cursor).ahead)
    (hreports : Reports lexeme (Token.skipBlanks s.cursor).line (Token.skipBlanks s.cursor).column
      result) :
    ∃ p : Piece text, p.result = result ∧
      p.Divides s.cursor.rest ((s.cursor.rest.dropWhile isBlank).drop lexeme.length) := by
  have hin := h.cursor.skipBlanks.in_text
  have hrest := Token.rest_skipBlanks_eq s.cursor
  generalize Token.skipBlanks s.cursor = c at *
  have hline : c.line ≠ [] := by
    intro hline
    rw [Cursor.ahead, hline, List.drop_nil, List.prefix_nil] at hahead
    exact hne hahead
  obtain ⟨before, hisLine⟩ := hin.isLine hline
  have hprefix : lexeme <+: s.cursor.rest.dropWhile isBlank := by
    rw [← hrest]
    exact hahead.trans (List.prefix_append _ _)
  have hleft := List.prefix_iff_eq_append.1 hprefix
  have hsplit : (before ++ c.line.take c.column) ++
      (lexeme ++ (s.cursor.rest.dropWhile isBlank).drop lexeme.length) = text := by
    rw [hleft, ← hrest, List.append_assoc, Cursor.rest, Cursor.ahead,
      ← List.append_assoc (List.take _ _), List.take_append_drop]
    exact hisLine.split
  have hchars : (s.cursor.rest.takeWhile isBlank ++ lexeme) ++
      (s.cursor.rest.dropWhile isBlank).drop lexeme.length = s.cursor.rest := by
    rw [List.append_assoc, hleft, List.takeWhile_append_dropWhile]
  exact ⟨{
    blanks := s.cursor.rest.takeWhile isBlank
    lexeme, result, before
    line := c.line
    after := c.unread
    column := c.column
    isBlank_of_mem := List.all_eq_true.1 List.all_takeWhile
    lexeme_ne_nil := hne
    isLine := hisLine
    lexeme_prefix := hahead
    reports := hreports }, rfl, hchars, hsplit⟩

theorem Settled.of_get (h : s.Settled text) : s.get.2.Settled text := by
  have hskip := h.cursor.skipBlanks
  have hgets := s.gets
  generalize s.get = result at hgets ⊢
  cases hgets with
  | held slot => rw [h.slot] at slot; cases slot
  | token slot lexed _ cursor_eq =>
    rw [← Token.lex_ahead_skipBlanks] at lexed
    exact ⟨slot, cursor_eq ▸ hskip.advance (Token.prefix_of_lex lexed).length_le⟩
  | bad slot lexed cursor_eq =>
    rw [← Token.lex_ahead_skipBlanks] at lexed
    obtain ⟨first, after, hahead, -⟩ := Token.lex_eq_bad lexed
    exact ⟨slot, cursor_eq ▸ hskip.advance (by simp [hahead])⟩

theorem Settled.afterGets (h : s.Settled text) (n : Nat) : (s.afterGets n).Settled text := by
  induction n generalizing s with
  | zero => exact h
  | succ n ih => exact ih h.of_get

/-- Where something is left besides blanks, a call takes a piece of the text. -/
theorem Settled.get_piece (h : s.Settled text) (hne : s.cursor.rest.dropWhile isBlank ≠ []) :
    ∃ p : Piece text, s.get.1 = p.result ∧ p.Divides s.cursor.rest s.get.2.cursor.rest := by
  have hgets := s.gets
  cases hget : s.get with
  | mk outcome s' =>
    rw [hget] at hgets
    cases hgets with
    | held slot => rw [h.slot] at slot; cases slot
    | @token kind lexeme value t cursor slot lexed token_eq cursor_eq rest_eq =>
      have hlexeme : lexeme ≠ [] := by
        rintro rfl
        exact hne (Token.lex_eq_token_nil.1 lexed).1
      have hahead : lexeme <+: (Token.skipBlanks s.cursor).ahead :=
        Token.prefix_of_lex ((Token.lex_ahead_skipBlanks _ _).trans lexed)
      obtain ⟨p, hresult, hdivides⟩ := h.piece (.ok t) hlexeme hahead
        ⟨by rw [token_eq, String.toList_ofList], by rw [token_eq]⟩
      exact ⟨p, hresult.symm, by rw [rest_eq]; exact hdivides⟩
    | @bad cause place cursor slot lexed cursor_eq rest_eq =>
      obtain ⟨-, -, hplace, x, after, hahead, -, hcause⟩ := get_error_place hget
      obtain ⟨p, hresult, hdivides⟩ := h.piece (.error ⟨cause, place⟩)
        (List.cons_ne_nil x []) (by simp [hahead]) ⟨hplace, x, rfl, hcause⟩
      exact ⟨p, hresult.symm, by rw [rest_eq]; exact hdivides⟩

/-- Where nothing but blanks is left, a call gives the end of the text. -/
theorem Settled.get_end (h : s.Settled text) (hnil : s.cursor.rest.dropWhile isBlank = []) :
    s.get.1 = .ok .endOfText ∧ s.get.2.cursor.rest = [] := by
  have hcolumn : (Token.skipBlanks s.cursor).column = 0 := by
    refine (h.cursor.refill.advance (List.takeWhile_sublist _).length_le).column_refill ?_
    rw [← Cursor.rest_refill]
    exact (Token.rest_skipBlanks_eq s.cursor).trans hnil
  have hgets := s.gets
  generalize s.get = result at hgets ⊢
  cases hgets with
  | held slot => rw [h.slot] at slot; cases slot
  | bad _ lexed => rw [hnil] at lexed; cases lexed
  | token _ lexed token_eq _ rest_eq =>
    rw [hnil] at lexed rest_eq
    cases lexed
    refine ⟨?_, rest_eq⟩
    rw [token_eq, hcolumn]
    rfl

/-! ## All calls -/

/-- Behind the last piece every call gives the end of the text. -/
theorem Settled.given_end (h : s.Settled text) (hnil : s.cursor.rest.dropWhile isBlank = [])
    (n : Nat) : s.given n = .ok .endOfText := by
  induction n generalizing s with
  | zero => exact (h.get_end hnil).1
  | succ n ih =>
    have hrest := (h.get_end hnil).2
    exact ih h.of_get (by rw [hrest]; rfl)

/-- The calls take consecutive pieces until only blanks are left. -/
theorem Settled.pieces (h : s.Settled text) (front : List Char)
    (hfront : front ++ s.cursor.rest = text) :
    ∃ (ps : List (Piece text)) (blanks : List Char),
      (∀ n (hn : n < ps.length), s.given n = ps[n].result) ∧
      (∀ n, ps.length ≤ n → s.given n = .ok .endOfText) ∧
      ps.length ≤ s.cursor.rest.length ∧
      ps.flatMap Piece.chars ++ blanks = s.cursor.rest ∧ (∀ c ∈ blanks, isBlank c) ∧
      Piece.Consecutive front ps := by
  -- Every piece has a character, so less is left behind it.
  induction hlength : s.cursor.rest.length using Nat.strongRecOn generalizing s front with
  | ind length ih =>
    subst hlength
    by_cases hnil : s.cursor.rest.dropWhile isBlank = []
    · refine ⟨[], s.cursor.rest, nofun, fun n _ => h.given_end hnil n, Nat.zero_le _, rfl, ?_,
        trivial⟩
      have hblanks := List.takeWhile_append_dropWhile (p := isBlank) (l := s.cursor.rest)
      rw [hnil, List.append_nil] at hblanks
      rw [← hblanks]
      exact List.all_eq_true.1 List.all_takeWhile
    · obtain ⟨p, hresult, hdivides⟩ := h.get_piece hnil
      have hlt := hdivides.length_lt
      obtain ⟨ps, blanks, hgiven, hend, hle, hrest, hblank, hps⟩ :=
        ih s.get.2.cursor.rest.length hlt h.of_get (front ++ p.chars)
          (by rw [List.append_assoc, hdivides.1, hfront]) rfl
      refine ⟨p :: ps, blanks, ?_, ?_, Nat.lt_of_le_of_lt hle hlt, ?_, hblank,
        hdivides.front_eq hfront, hps⟩
      · intro n hn
        cases n with
        | zero => exact hresult
        | succ n => exact hgiven n (Nat.lt_of_succ_lt_succ hn)
      · intro n hn
        cases n with
        | zero => cases hn
        | succ n => exact hend n (Nat.le_of_succ_le_succ hn)
      · rw [List.flatMap_cons, List.append_assoc, hrest, hdivides.1]

/-- Calling again and again takes a text apart, whatever is rejected on the way.
    There are no more calls than characters before the end of the text is given,
    and it is given by every call from then on. Pieces and the blanks behind
    them make up the text. Each piece reports the column at which its lexeme
    stands on its line, and on a line the pieces do not overlap. -/
theorem pieces_partition_text (keywords : Keywords) (text : List Char) :
    ∃ (ps : List (Piece text)) (blanks : List Char),
      (∀ n (hn : n < ps.length), (ofText keywords text).given n = ps[n].result) ∧
      (∀ n, ps.length ≤ n → (ofText keywords text).given n = .ok .endOfText) ∧
      ps.length ≤ text.length ∧
      ps.flatMap Piece.chars ++ blanks = text ∧ (∀ c ∈ blanks, isBlank c) ∧
      Piece.Consecutive [] ps ∧ ps.Pairwise Piece.LeftOf := by
  have hsettled : (ofText keywords text).Settled text := ⟨rfl, Cursor.Settled.ofText text⟩
  have hrest : (ofText keywords text).cursor.rest = text := Cursor.rest_ofText text
  obtain ⟨ps, blanks, hgiven, hend, hle, hchars, hblank, hps⟩ :=
    hsettled.pieces [] hrest
  rw [hrest] at hle hchars
  exact ⟨ps, blanks, hgiven, hend, hle, hchars, hblank, hps, hps.pairwise⟩

end Scanner

end Calculator
