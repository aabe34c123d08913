import Calculator.Proofs.Session.Lines

/-! # How much of a statement was read

    When a statement is rejected, the text from its first token on is what has been
    read of it, and what is left (`Scanner.HasRead`). Recovery looks at the token
    that was read last only, and so has to know from it whether the terminator of the
    statement is in the one part or in the other. It does
    (`exists_scanned_of_rejected`), and it reports what it discards of the part that
    is left (`recover_fst_of_scanned`).
-/

namespace Calculator

open Reading
open Text (isBlank)

/-! ## Terminators in what was read -/

section lex
open Token (lex Avoids)

variable {keywords : Keywords} {cs lexeme : List Char} {kind : Token.Kind} {value : Float}

/-- A terminator is in a lexeme only if the token is one. -/
theorem any_isTerminator_of_lex (hk : Avoids keywords .terminator)
    (h : lex keywords cs = .token kind lexeme value) :
    lexeme.any isTerminator = decide (kind = .terminator) := by
  by_cases hkind : kind = .terminator
  · subst hkind
    obtain ⟨c, -, -, hc, rfl⟩ := Token.lex_eq_terminator hk h
    simp [hc]
  · have hother : ∀ c ∈ lexeme, isTerminator c = false :=
      fun c hc => Token.isTerminator_of_mem_lexeme h hkind hc
    simpa [hkind] using hother

theorem any_isTerminator_takeWhile_isBlank (cs : List Char) :
    (cs.takeWhile isBlank).any isTerminator = false := by
  rw [List.any_eq_false]
  intro c hc hterminator
  have hblank := List.all_eq_true.1 List.all_takeWhile c hc
  rw [isBlank_of_isTerminator c hterminator] at hblank
  cases hblank

end lex

namespace Scanner

/-- The token that was read last is a terminator. -/
def AtTerminator (s : Scanner) : Bool := s.latest.any (·.kind = .terminator)

/-- Of the text `start` something has been read, and the rest is left. What has been
    read has a terminator in it just if the last token of it is one. -/
def HasRead (start : List Char) (s : Scanner) : Prop :=
  ∃ scanned, start = scanned ++ s.cursor.rest ∧ scanned.any isTerminator = s.AtTerminator

variable {start more : List Char} {s s' : Scanner} {t : Token}

theorem HasRead.congr (h : s.HasRead start) (hlatest : s'.latest = s.latest)
    (hcursor : s'.cursor = s.cursor) : s'.HasRead start := by
  unfold HasRead AtTerminator
  rw [hlatest, hcursor]
  exact h

/-- Where no terminator was read last, more of the text is read. -/
theorem HasRead.extend (h : s.HasRead start) (hlast : s.AtTerminator = false)
    (hrest : s.cursor.rest = more ++ s'.cursor.rest)
    (hmore : more.any isTerminator = s'.AtTerminator) : s'.HasRead start := by
  obtain ⟨scanned, hstart, hscanned⟩ := h
  refine ⟨scanned ++ more, ?_, ?_⟩
  · rw [hstart, hrest, List.append_assoc]
  · rw [List.any_append, hscanned, hlast, Bool.false_or, hmore]

theorem atTerminator_of_slot (hslot : s.slot = none) (hlast : s.last = some t) :
    s.AtTerminator = decide (t.kind = .terminator) := by
  simp [AtTerminator, latest, hslot, hlast]

end Scanner

/-- The text `start` is read. No terminator was read last, unless it is in the
    slot or was just handed out. -/
def Invariant.hasRead (keywords : Keywords) (hk : Token.Avoids keywords .terminator)
    (start : List Char) : Invariant where
  Stop t := t.kind = .terminator
  Ready s := s.keywords = keywords ∧ s.HasRead start ∧ (s.slot = none → s.AtTerminator = false)
  Held t s := s.keywords = keywords ∧ s.HasRead start ∧ s.slot = none ∧ s.last = some t
  Failed s := s.HasRead start
  get := by
    intro s ⟨hkeywords, hread, hlast⟩
    have hgets := s.gets
    generalize s.get = result at hgets ⊢
    cases hgets with
    | @held t slot =>
      have hlatest : Scanner.latest { s with slot := none, last := some t } = s.latest := by
        simp [Scanner.latest, slot]
      exact .inl ⟨t, _, rfl, hkeywords, hread.congr hlatest rfl, rfl, rfl⟩
    | @token kind lexeme value t cursor slot lexed token_eq _ rest_eq =>
      refine .inl ⟨t, _, rfl, hkeywords, ?_, slot, rfl⟩
      -- the blanks and the lexeme have been read
      have hrest : s.cursor.rest =
          (s.cursor.rest.takeWhile isBlank ++ lexeme) ++ cursor.rest := by
        rw [List.append_assoc, rest_eq, List.prefix_iff_eq_append.1 (Token.prefix_of_lex lexed),
          List.takeWhile_append_dropWhile]
      have hat : Scanner.AtTerminator { s with cursor, last := some t } =
          decide (t.kind = .terminator) := Scanner.atTerminator_of_slot slot rfl
      refine hread.extend (hlast slot) hrest ?_
      rw [List.any_append, any_isTerminator_takeWhile_isBlank, Bool.false_or,
        any_isTerminator_of_lex (hkeywords ▸ hk) lexed, hat, token_eq]
    | @bad cause place cursor slot lexed _ rest_eq =>
      refine .inr ⟨_, _, rfl, ?_⟩
      obtain ⟨first, after, hafter, hfirst, -⟩ := Token.lex_eq_bad lexed
      have hrest : s.cursor.rest =
          (s.cursor.rest.takeWhile isBlank ++ [first]) ++ cursor.rest := by
        rw [List.append_assoc, rest_eq, hafter]
        show s.cursor.rest = s.cursor.rest.takeWhile isBlank ++ (first :: after)
        rw [← hafter, List.takeWhile_append_dropWhile]
      refine hread.extend (hlast slot) hrest ?_
      -- no token counts as read last
      simp [any_isTerminator_takeWhile_isBlank, hfirst, Scanner.AtTerminator, Scanner.latest, slot]
  held_slot h := h.2.2.1
  ready_hold := by
    intro t s ⟨hkeywords, hread, hslot, hlast⟩
    have hlatest : (s.hold t).latest = s.latest := by
      simp [Scanner.latest, Scanner.hold, hslot, hlast]
    exact ⟨hkeywords, hread.congr hlatest rfl, fun h => nomatch h⟩
  ready_or_stop := by
    intro t s ⟨hkeywords, hread, hslot, hlast⟩
    -- Behind a terminator that is not put back nothing more may be read.
    by_cases hkind : t.kind = .terminator
    · exact .inr hkind
    · refine .inl ⟨hkeywords, hread, fun _ => ?_⟩
      simp [Scanner.atTerminator_of_slot hslot hlast, hkind]
  isStop := @Token.isStop_of_terminator
  failed_of_ready h := h.2.1
  failed_of_held h := h.2.1

namespace Session

variable {d : Dialect} {text : List Char} {s s' : Session}

/-- The rest of a statement is read from the text that begins with its first
    token. -/
theorem Reads.hasRead_after (h : s.Reads d text) (hd : d.IsBuiltIn) {t : Token}
    {scanner : Scanner} (hfirst : firstToken s.scanner = .ok t scanner) :
    (Invariant.hasRead d.keywords hd.avoids_terminator
      (t.lexeme.toList ++ scanner.cursor.rest)).After
      (statementAfter s.dialect s.bindings t scanner) := by
  obtain ⟨hkeywords, hslot, hwritten⟩ := h.held hfirst
  obtain ⟨hk, -, hlast, -⟩ := firstToken_ok hfirst
  apply Invariant.after_statementAfter
  · -- a terminator opens no group, so no reader reads on behind it
    intro u hu
    rw [h.1]
    exact hd.groupsWithin.closing?_of_isStop (.inl hu)
  · refine ⟨hkeywords, ⟨t.lexeme.toList, rfl, ?_⟩, hslot, hlast⟩
    have hother := hwritten.terminator_free hk
    rw [Scanner.atTerminator_of_slot hslot hlast]
    simpa [hk] using hother

/-- Where a statement is rejected, the text from its first token on has been read up
    to the scanner. -/
theorem exists_scanned_of_rejected (h : s.Reads d text) (hd : d.IsBuiltIn) {r : Rejection}
    (hturn : s.turn = .error (.rejected r) s') :
    ∃ scanned, s.scanner.StartsAt (scanned ++ s'.scanner.cursor.rest) ∧
      scanned.any isTerminator = s'.scanner.AtTerminator := by
  unfold Scanner.StartsAt
  cases turns_of_eq hturn with
  | unread first =>
    -- The offending character is all that was read.
    obtain ⟨-, hlatest, c, hc, -, hcause⟩ := h.unread first
    rw [first]
    refine ⟨[c], ⟨c, hcause, rfl⟩, ?_⟩
    simp [hc, Scanner.AtTerminator, hlatest]
  | stopped first quit after =>
    have hafter := h.hasRead_after hd first
    rw [after] at hafter
    obtain ⟨scanned, hstart, hscanned⟩ := hafter
    rw [first]
    exact ⟨scanned, hstart.symm, hscanned⟩
  | refused first quit after changed =>
    have hafter := h.hasRead_after hd first
    rw [after] at hafter
    obtain ⟨scanned, hstart, hscanned⟩ := hafter.2.1
    rw [first]
    exact ⟨scanned, hstart.symm, hscanned⟩

/-- What is reported of a recovery when the text `scanned` of the statement has been
    read and the text `left` is left: that the rest is given up, and unless the
    terminator was read, how many characters are discarded in front of it. -/
def recoveryRecords (scanned left : List Char) : List Record :=
  .recovering ::
    if scanned.any isTerminator then []
    else [.skipped (left.takeWhile (!isTerminator ·)).length .terminator]

theorem recover_fst_of_scanned {scanned : List Char}
    (h : scanned.any isTerminator = s.scanner.AtTerminator) :
    s.recover.1 = recoveryRecords scanned s.scanner.cursor.rest := by
  rw [recover_fst_eq, Scanner.ignore_fst_eq, recoveryRecords, h, Scanner.AtTerminator]
  cases hlast : s.scanner.latest.any (·.kind = .terminator) with
  | true => rfl
  | false =>
    show [_, Record.skipped (s.scanner.cursor.skipThrough isTerminator).1 _] = _
    rw [Text.Cursor.fst_skipThrough]
    rfl

end Session

end Calculator
