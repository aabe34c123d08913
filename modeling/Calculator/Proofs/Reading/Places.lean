import Calculator.Proofs.Reading.Lockstep
import Calculator.Proofs.Text.Lines

/-! # The places of tokens

    A token remembers its column and not its line. When it is handed out, the
    line of the scanner is the one that it stands on (`Token.At`). No token but a
    terminator has a line feed in it, and behind a terminator nothing more is
    read of a statement. So all tokens of a statement stand on the line of the
    first one, and whenever the statement is given up, the scanner is still on
    that line, or at the end of a text that ends with it (`Invariant.onLine`).
-/

namespace Calculator

open Text (Cursor isBlank)

/-! ## Scanning on a line -/

section scanning
variable {L A : List Char} {c : Cursor} {s s' : Scanner} {t : Token}

theorem skipBlanks_inside (h : c.Inside L A) (hL : L ≠ []) :
    (Token.skipBlanks c).Inside L A := by
  refine ((h.refill hL).advance ?_).refill hL
  rw [← List.prefix_iff_eq_take.1 (List.takeWhile_prefix _)]
  intro hmem
  exact absurd (List.all_eq_true.1 List.all_takeWhile _ hmem) (by decide)

/-- The next token stands behind the blanks. -/
theorem Scanner.get_ok_place (hslot : s.slot = none) (h : s.get = (.ok t, s')) :
    s'.cursor = (Token.skipBlanks s.cursor).advance t.lexeme.toList.length ∧
      t.column = (Token.skipBlanks s.cursor).column ∧
      t.lexeme.toList <+: (Token.skipBlanks s.cursor).ahead ∧
      (t.lexeme = "" → t.kind = .quit) ∧ (t.kind ≠ .terminator → '\n' ∉ t.lexeme.toList) := by
  have hgets := s.gets
  rw [h] at hgets
  cases hgets with
  | held slot => rw [slot] at hslot; cases hslot
  | @token kind lexeme value _ _ _ lexed token_eq cursor_eq _ =>
    rw [← Token.lex_ahead_skipBlanks] at lexed
    subst token_eq cursor_eq
    refine ⟨by rw [String.toList_ofList], rfl, ?_, ?_, ?_⟩
    · rw [String.toList_ofList]
      exact Token.prefix_of_lex lexed
    · intro hlexeme
      rw [String.ofList_eq_empty_iff] at hlexeme
      subst hlexeme
      exact (Token.lex_eq_token_nil.1 lexed).2.1
    · intro hkind hmem
      rw [String.toList_ofList] at hmem
      have hterminator := Token.isTerminator_of_mem_lexeme lexed hkind hmem
      cases hterminator

/-- So does the character that begins none, which is no line feed. -/
theorem Scanner.get_error_place {r : Rejection} (h : s.get = (.error r, s')) :
    s.slot = none ∧ s'.cursor = (Token.skipBlanks s.cursor).advance 1 ∧
      r.place =
        some ⟨(Token.skipBlanks s.cursor).line, (Token.skipBlanks s.cursor).column⟩ ∧
      ∃ x after, (Token.skipBlanks s.cursor).ahead = x :: after ∧ x ≠ '\n' ∧
        (r.cause = .malformedNumber x ∨ r.cause = .unexpectedCharacter x) := by
  unfold Scanner.get at h
  cases hslot : s.slot with
  | some u => rw [hslot] at h; cases h
  | none =>
    rw [hslot] at h
    dsimp only at h
    rw [Token.scan_eq, ← Token.lex_ahead_skipBlanks] at h
    cases hlex : Token.lex s.keywords (Token.skipBlanks s.cursor).ahead with
    | token kind lexeme value => rw [hlex] at h; cases h
    | bad cause =>
      rw [hlex] at h
      cases h
      obtain ⟨x, after, hahead, hx, hcause⟩ := Token.lex_eq_bad hlex
      refine ⟨rfl, rfl, rfl, x, after, hahead, ?_, hcause⟩
      rintro rfl
      cases hx

end scanning

/-! ## Tokens that were just read -/

/-- The token stands on the current line of the cursor, which is right behind
    it. -/
structure Token.At (t : Token) (c : Cursor) : Prop where
  place : ∃ k : Nat, t.column = k ∧ t.lexeme.toList <+: c.line.drop k ∧
    c.column = k + t.lexeme.toList.length
  /-- Only the end of the text has no characters. -/
  quit : t.lexeme = "" → t.kind = .quit
  /-- Only a terminator has a line feed in it. -/
  plain : t.kind ≠ .terminator → '\n' ∉ t.lexeme.toList

/-- The token was read on the line `L`, or at the end of the text behind it; the
    cursor is behind the token. -/
structure Token.On (L A : List Char) (t : Token) (c : Cursor) : Prop where
  at_cursor : t.At c
  keeps : c.Keeps L A
  /-- The rest of the line is ahead, unless the token has ended it. -/
  inside : t.kind ≠ .terminator → c.Inside L A

section tokens
variable {L A : List Char} {c : Cursor} {s s' : Scanner} {t : Token}

theorem Scanner.at_of_get (hslot : s.slot = none) (h : s.get = (.ok t, s')) : t.At s'.cursor := by
  obtain ⟨hcursor, hcolumn, hlexeme, hquit, hplain⟩ := Scanner.get_ok_place hslot h
  rw [hcursor]
  exact ⟨⟨_, hcolumn, hlexeme, rfl⟩, hquit, hplain⟩

theorem Scanner.on_of_get (hL : L ≠ []) (hslot : s.slot = none) (hs : s.cursor.Inside L A)
    (h : s.get = (.ok t, s')) : t.On L A s'.cursor := by
  have hskip := skipBlanks_inside hs hL
  obtain ⟨hcursor, -, hlexeme, -, hplain⟩ := Scanner.get_ok_place hslot h
  refine ⟨Scanner.at_of_get hslot h, ?_, fun hkind => ?_⟩
  · rw [hcursor]
    exact hskip.1
  · -- the token takes nothing but its lexeme
    rw [hcursor]
    refine hskip.advance ?_
    rw [← List.prefix_iff_eq_take.1 hlexeme]
    exact hplain hkind

/-- A token that is neither a terminator nor the end of the text is followed by
    the rest of its line. -/
theorem Token.At.on (h : t.At c) (hquit : t.kind ≠ .quit) (hkind : t.kind ≠ .terminator) :
    t.On c.line c.unread c := by
  obtain ⟨k, -, hlexeme, hcolumn⟩ := h.place
  refine ⟨h, c.keeps_self, fun _ => ?_⟩
  -- Move the cursor back in front of the token.
  have hinside : Cursor.Inside c.line c.unread { c with column := k } := by
    refine ⟨c.keeps_self, fun _ hnil => hquit (h.quit ?_)⟩
    rw [Cursor.ahead] at hnil
    rw [hnil, List.prefix_nil] at hlexeme
    exact String.toList_eq_nil_iff.1 hlexeme
  have hadvance := hinside.advance (n := t.lexeme.toList.length) (by
    rw [Cursor.ahead, ← List.prefix_iff_eq_take.1 hlexeme]
    exact h.plain hkind)
  rwa [Cursor.advance, ← hcolumn] at hadvance

/-- The lexeme and what is left of the text make up the text from the column of
    the token on. -/
theorem Token.At.text_eq (h : t.At c) :
    ∃ k : Nat, t.column = k ∧ t.lexeme.toList ++ c.rest = c.line.drop k ++ c.unread ∧
      (t.kind ≠ .quit → k < c.line.length) := by
  obtain ⟨k, hk, hlexeme, hcolumn⟩ := h.place
  refine ⟨k, hk, ?_, fun hquit => ?_⟩
  · rw [Cursor.rest, Cursor.ahead, hcolumn, ← List.drop_drop, ← List.append_assoc,
      List.prefix_iff_eq_append.1 hlexeme]
  · have hne : t.lexeme.toList ≠ [] := fun hnil => hquit (h.quit (String.toList_eq_nil_iff.1 hnil))
    have hlength := hlexeme.length_le
    have hpos := List.length_pos_iff.2 hne
    rw [List.length_drop] at hlength
    omega

/-- The line, from the column of the token on, starts with its lexeme. -/
theorem Token.On.prefix_line (h : t.On L A c) :
    ∃ k : Nat, t.column = k ∧ t.lexeme.toList <+: L.drop k := by
  obtain ⟨k, hk, hlexeme, -⟩ := h.at_cursor.place
  refine ⟨k, hk, ?_⟩
  rw [h.keeps.line_eq] at hlexeme
  split at hlexeme
  · -- at the end of the text there is no lexeme
    rw [List.drop_nil, List.prefix_nil] at hlexeme
    rw [hlexeme]
    exact List.nil_prefix
  · exact hlexeme

end tokens

/-! ## Reading on one line -/

theorem Token.isStop_of_terminator {t : Token} (h : t.kind = .terminator) : t.IsStop := .inl h

/-- All tokens are read on the line `L`, up to the terminator that may be at its
    end. -/
def Invariant.onLine (L A : List Char) (hL : L ≠ []) : Invariant where
  Stop t := t.kind = .terminator
  Ready s := (s.slot = none → s.cursor.Inside L A) ∧ ∀ t, s.slot = some t → t.On L A s.cursor
  Held t s := s.slot = none ∧ t.On L A s.cursor
  Failed s := s.cursor.Keeps L A
  get := by
    rintro s ⟨hnone, hsome⟩
    cases hget : s.get with
    | mk outcome s' =>
      cases outcome with
      | error r =>
        obtain ⟨hslot, hcursor, -⟩ := Scanner.get_error_place hget
        refine .inr ⟨r, s', rfl, ?_⟩
        rw [hcursor]
        exact (skipBlanks_inside (hnone hslot) hL).1
      | ok t =>
        refine .inl ⟨t, s', rfl, (Scanner.slot_last_of_get hget).1, ?_⟩
        cases hslot : s.slot with
        | none => exact Scanner.on_of_get hL hslot (hnone hslot) hget
        | some u =>
          have hon := hsome u hslot
          simp only [Scanner.get, hslot, Prod.mk.injEq, Except.ok.injEq] at hget
          obtain ⟨rfl, rfl⟩ := hget
          exact hon
  held_slot h := h.1
  ready_hold := by
    rintro t s ⟨-, hon⟩
    refine ⟨fun h => (nomatch h), fun u hu => ?_⟩
    cases hu
    exact hon
  ready_or_stop := by
    rintro t s ⟨hslot, hon⟩
    by_cases hkind : t.kind = .terminator
    · exact .inr hkind
    · refine .inl ⟨fun _ => hon.inside hkind, fun u hu => ?_⟩
      rw [hslot] at hu
      cases hu
  isStop := @Token.isStop_of_terminator
  failed_of_ready := by
    rintro s ⟨hnone, hsome⟩
    cases hslot : s.slot with
    | none => exact (hnone hslot).1
    | some t => exact (hsome t hslot).keeps
  failed_of_held h := h.2.keeps

namespace Invariant

variable {I : Invariant} {s s' : Scanner} {ts : List Token}

/-- Where no token was a stop, more tokens can be read. -/
theorem ready_of_gives (hs : I.Ready s) (h : s.Gives ts s') (hts : ∀ t ∈ ts, ¬ I.Stop t) :
    I.Ready s' := by
  induction ts generalizing s with
  | nil => exact h ▸ hs
  | cons t ts ih =>
    obtain ⟨s₁, hget, hrest⟩ := h
    have hready := (I.ready_or_stop (held_of_get hs hget)).resolve_right (hts t (by simp))
    exact ih hready hrest fun u hu => hts u (by simp [hu])

/-- Every token was handed out as the invariant says, if none in front of it was
    a stop. -/
theorem held_of_gives (hs : I.Ready s) (h : s.Gives ts s')
    (hts : ∀ t ∈ ts.dropLast, ¬ I.Stop t) : ∀ t ∈ ts, ∃ r, I.Held t r := by
  intro t ht
  obtain ⟨before, after, rfl⟩ := List.append_of_mem ht
  obtain ⟨s₁, hbefore, s₂, hget, -⟩ := Scanner.gives_append.1 h
  have hready := I.ready_of_gives hs hbefore fun u hu => hts u (by
    rw [List.dropLast_append_of_ne_nil (List.cons_ne_nil _ _)]
    exact List.mem_append_left _ hu)
  exact ⟨s₂, held_of_get hready hget⟩

end Invariant

end Calculator
