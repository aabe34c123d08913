import Calculator.Proofs.Session.Walk

/-! # Giving up a statement

    However far a statement was read before it was rejected, recovery continues
    the session behind the first terminator at or after the first token of the
    statement (`recover_resynchronises`).

    How much is discarded depends on the token that was read last, so the proof
    follows the *resumption*: the text that a recovery would leave if it were
    called now. Reading a statement does not change it. A terminator is read by
    no reader and then followed by more reading, so the resumption stays where
    the terminator was found.
-/

namespace Calculator

open Reading
open Text (isBlank)

/-! ## Behind the next terminator -/

/-- The text behind its first terminator; nothing if there is none. -/
def behindTerminator (cs : List Char) : List Char := (cs.dropWhile (!isTerminator ·)).drop 1

theorem behindTerminator_cons {c : Char} (h : isTerminator c) (cs : List Char) :
    behindTerminator (c :: cs) = cs := by
  simp [behindTerminator, h]

theorem behindTerminator_append {cs : List Char} (h : ∀ c ∈ cs, isTerminator c = false)
    (ds : List Char) : behindTerminator (cs ++ ds) = behindTerminator ds := by
  rw [behindTerminator, behindTerminator, List.dropWhile_append_of_pos]
  simpa using h

theorem behindTerminator_suffix (cs : List Char) : behindTerminator cs <:+ cs :=
  (List.drop_suffix 1 _).trans (List.dropWhile_suffix _)

theorem behindTerminator_dropWhile_isBlank (cs : List Char) :
    behindTerminator (cs.dropWhile isBlank) = behindTerminator cs := by
  conv => rhs; rw [← List.takeWhile_append_dropWhile (p := isBlank) (l := cs)]
  refine (behindTerminator_append (fun c hc => ?_) _).symm
  have hblank := List.all_eq_true.1 List.all_takeWhile c hc
  cases hterminator : isTerminator c with
  | false => rfl
  | true => rw [isBlank_of_isTerminator c hterminator] at hblank; cases hblank

section lex
open Token (lex Avoids)

variable {keywords : Keywords} {cs lexeme : List Char} {kind : Token.Kind} {value : Float}

/-- A scanned token does not change what is behind the next terminator, unless
    it is that terminator. -/
theorem behindTerminator_of_lex_token (hk : Avoids keywords .terminator)
    (h : lex keywords (cs.dropWhile isBlank) = .token kind lexeme value) :
    behindTerminator cs =
      if kind = .terminator then (cs.dropWhile isBlank).drop lexeme.length
      else behindTerminator ((cs.dropWhile isBlank).drop lexeme.length) := by
  rw [← behindTerminator_dropWhile_isBlank]
  split
  · next hkind =>
    subst hkind
    obtain ⟨c, after, hcs, hc, rfl⟩ := Token.lex_eq_terminator hk h
    rw [hcs, behindTerminator_cons hc]
    rfl
  · next hkind =>
    conv => lhs; rw [← List.prefix_iff_eq_append.1 (Token.prefix_of_lex h)]
    exact behindTerminator_append (fun c hc => Token.isTerminator_of_mem_lexeme h hkind hc) _

/-- Neither does a character that begins no token. -/
theorem behindTerminator_of_lex_bad {cause : Cause}
    (h : lex keywords (cs.dropWhile isBlank) = .bad cause) :
    behindTerminator cs = behindTerminator ((cs.dropWhile isBlank).drop 1) := by
  rw [← behindTerminator_dropWhile_isBlank]
  obtain ⟨first, after, hcs, hfirst, -⟩ := Token.lex_eq_bad h
  rw [hcs]
  have hone : ∀ c ∈ [first], isTerminator c = false := by simpa using hfirst
  exact behindTerminator_append hone after

end lex

/-! ## The resumption -/

namespace Scanner

/-- The text that is left if the statement is given up now. -/
def resumption (s : Scanner) : List Char :=
  if s.latest.any (·.kind = .terminator) then s.cursor.rest else behindTerminator s.cursor.rest

variable {s s' : Scanner} {t : Token}

theorem resumption_congr (hlatest : s.latest = s'.latest) (hcursor : s.cursor = s'.cursor) :
    s.resumption = s'.resumption := by
  rw [resumption, resumption, hlatest, hcursor]

/-- Behind a terminator nothing is discarded. -/
theorem resumption_of_terminator (h : s.latest = some t) (hk : t.kind = .terminator) :
    s.resumption = s.cursor.rest := by
  simp [resumption, h, hk]

theorem resumption_of_other (h : ∀ t, s.latest = some t → t.kind ≠ .terminator) :
    s.resumption = behindTerminator s.cursor.rest := by
  cases hlatest : s.latest with
  | none => simp [resumption, hlatest]
  | some t => simp [resumption, hlatest, h t hlatest]

end Scanner

/-- Giving up a statement empties the slot and leaves the resumption. -/
theorem Session.recover_scanner (s : Session) :
    s.recover.2.scanner.slot = none ∧
      s.recover.2.scanner.cursor.rest = s.scanner.resumption := by
  rw [recover_eq, Scanner.ignore_eq, Scanner.resumption]
  split
  · exact ⟨rfl, rfl⟩
  · exact ⟨rfl, Text.Cursor.rest_skipThrough _ _⟩

/-- The resumption is `R`. A terminator that was handed out is put back before
    anything else is read. -/
def Invariant.resuming (keywords : Keywords) (hk : Token.Avoids keywords .terminator)
    (R : List Char) : Invariant where
  Stop t := t.kind = .terminator
  Ready s := s.keywords = keywords ∧ s.resumption = R ∧
    (s.slot = none → ∀ t, s.last = some t → t.kind ≠ .terminator)
  Held t s := s.keywords = keywords ∧ s.resumption = R ∧ s.slot = none ∧ s.last = some t
  Failed s := s.resumption = R
  get := by
    rintro s ⟨rfl, hR, hlast⟩
    have hgets := s.gets
    generalize s.get = result at hgets ⊢
    -- If the slot is empty, what is behind the next terminator is known.
    have hbehind (hslot : s.slot = none) : behindTerminator s.cursor.rest = R := by
      rw [← hR, Scanner.resumption_of_other]
      rw [Scanner.latest, hslot]
      exact hlast hslot
    cases hgets with
    | @held t slot =>
      refine .inl ⟨t, _, rfl, rfl, ?_, rfl, rfl⟩
      rw [← hR]
      exact Scanner.resumption_congr (by rw [Scanner.latest, Scanner.latest, slot]; rfl) rfl
    | @token kind lexeme value t cursor slot lexed token_eq _ rest_eq =>
      refine .inl ⟨t, _, rfl, rfl, ?_, slot, rfl⟩
      have hlatest : Scanner.latest { s with cursor, last := some t } = some t := by
        rw [Scanner.latest, slot]
        rfl
      have hlex := behindTerminator_of_lex_token hk lexed
      rw [hbehind slot, ← rest_eq] at hlex
      by_cases hkind : kind = .terminator
      · -- The next terminator has just been read, so nothing is left to discard.
        rw [Scanner.resumption_of_terminator hlatest (by rw [token_eq, hkind]), hlex,
          if_pos hkind]
      · rw [Scanner.resumption_of_other, hlex, if_neg hkind]
        intro u hu
        rw [hlatest] at hu
        cases hu
        rw [token_eq]
        exact hkind
    | @bad cause place cursor slot lexed _ rest_eq =>
      -- The character is no terminator, and no token counts as read last.
      refine .inr ⟨_, _, rfl, ?_⟩
      have hlex := behindTerminator_of_lex_bad lexed
      rw [hbehind slot, ← rest_eq] at hlex
      rw [Scanner.resumption_of_other, hlex]
      rw [Scanner.latest, slot]
      exact fun t ht => nomatch ht
  held_slot h := h.2.2.1
  ready_hold := by
    rintro t s ⟨hkeywords, hR, hslot, hlast⟩
    refine ⟨hkeywords, ?_, fun h => nomatch h⟩
    rw [← hR]
    refine Scanner.resumption_congr ?_ rfl
    rw [Scanner.latest, Scanner.latest, hslot, hlast]
    rfl
  ready_or_stop := by
    rintro t s ⟨hkeywords, hR, hslot, hlast⟩
    -- Behind a terminator that is not put back, the resumption would move on with the cursor.
    by_cases hkind : t.kind = .terminator
    · exact .inr hkind
    · refine .inl ⟨hkeywords, hR, fun _ u hu => ?_⟩
      rw [hlast] at hu
      cases hu
      exact hkind
  isStop := .inl
  failed_of_ready h := h.2.1
  failed_of_held h := h.2.1

/-! ## Where a statement starts -/

/-- The token was read from the text in front of `rest`. -/
structure Token.WrittenBefore (t : Token) (rest text : List Char) : Prop where
  suffix : t.lexeme.toList ++ rest <:+ text
  terminator_free : t.kind ≠ .terminator → ∀ c ∈ t.lexeme.toList, isTerminator c = false

/-- What is left to read is the end of the text, and so is the token in the
    slot with it. -/
def Invariant.inText (keywords : Keywords) (text : List Char) : Invariant where
  Stop _ := False
  Ready s := s.keywords = keywords ∧ s.cursor.rest <:+ text ∧
    ∀ t, s.slot = some t → t.WrittenBefore s.cursor.rest text
  Held t s := s.keywords = keywords ∧ s.slot = none ∧ t.WrittenBefore s.cursor.rest text
  Failed s := s.keywords = keywords ∧ s.cursor.rest <:+ text
  get := by
    rintro s ⟨rfl, hrest, hslot⟩
    have hgets := s.gets
    generalize s.get = result at hgets ⊢
    have hblank : s.cursor.rest.dropWhile isBlank <:+ text :=
      (List.dropWhile_suffix _).trans hrest
    cases hgets with
    | @held t slot => exact .inl ⟨t, _, rfl, rfl, rfl, hslot t slot⟩
    | @token kind lexeme value t cursor slot lexed token_eq _ rest_eq =>
      refine .inl ⟨t, _, rfl, rfl, slot, ?_, ?_⟩
      · -- the lexeme and what is left make up the text behind the blanks
        rw [token_eq, rest_eq, String.toList_ofList,
          List.prefix_iff_eq_append.1 (Token.prefix_of_lex lexed)]
        exact hblank
      · rw [token_eq, String.toList_ofList]
        exact fun hkind c hc => Token.isTerminator_of_mem_lexeme lexed hkind hc
    | @bad cause place cursor slot lexed _ rest_eq =>
      refine .inr ⟨_, _, rfl, rfl, ?_⟩
      rw [rest_eq]
      exact (List.drop_suffix 1 _).trans hblank
  held_slot h := h.2.1
  ready_hold := by
    rintro t s ⟨hkeywords, hslot, hwritten⟩
    refine ⟨hkeywords, (List.suffix_append _ _).trans hwritten.suffix, fun u hu => ?_⟩
    cases hu
    exact hwritten
  ready_or_stop := by
    rintro t s ⟨hkeywords, hslot, hwritten⟩
    refine .inl ⟨hkeywords, (List.suffix_append _ _).trans hwritten.suffix, fun u hu => ?_⟩
    rw [hslot] at hu
    cases hu
  isStop := isStop_never
  failed_of_ready h := ⟨h.1, h.2.1⟩
  failed_of_held h := ⟨h.1, (List.suffix_append _ _).trans h.2.2.suffix⟩

/-- The text from the first token of the next statement on, or from the
    character in front of it that begins no token. -/
def Scanner.StartsAt (s : Scanner) (start : List Char) : Prop :=
  match firstToken s with
  | .ok t s' => start = t.lexeme.toList ++ s'.cursor.rest
  | .error (.rejected r) s' =>
    ∃ c, (r.cause = .malformedNumber c ∨ r.cause = .unexpectedCharacter c) ∧
      start = c :: s'.cursor.rest
  | .error _ _ => False

/-- The first token of a statement, or the character that keeps one from
    beginning, is read from the text. -/
theorem firstToken_inText {keywords : Keywords} {text : List Char} {s : Scanner}
    (h : (Invariant.inText keywords text).Ready s) :
    (∃ t s', firstToken s = .ok t s' ∧ (Invariant.inText keywords text).Held t s') ∨
      ∃ r s' c, firstToken s = .error (.rejected r) s' ∧ s'.keywords = keywords ∧
        s'.latest = none ∧ isTerminator c = false ∧ c :: s'.cursor.rest <:+ text ∧
        (r.cause = .malformedNumber c ∨ r.cause = .unexpectedCharacter c) := by
  obtain ⟨s₁, t, s', h₁, hget₁, -, hfirst⟩ | ⟨s₁, r, s', h₁, hget₁, hfirst⟩ :=
    firstToken_cases (P := (Invariant.inText keywords text).Ready) h fun h₁ hget₁ _ =>
      (Invariant.ready_or_stop _ (Invariant.held_of_get h₁ hget₁)).resolve_right False.elim
  · exact .inl ⟨t, s', hfirst, Invariant.held_of_get h₁ hget₁⟩
  · have hgets := s₁.gets
    rw [hget₁] at hgets
    cases hgets with
    | bad slot lexed _ rest_eq =>
      obtain ⟨c, after, hcs, hc, hcause⟩ := Token.lex_eq_bad lexed
      have hafter : after = (s₁.cursor.rest.dropWhile isBlank).drop 1 := by rw [hcs]; rfl
      refine .inr ⟨_, _, c, hfirst, h₁.1, by rw [Scanner.latest, slot]; rfl, hc, ?_, hcause⟩
      rw [rest_eq, ← hafter, ← hcs]
      exact (List.dropWhile_suffix _).trans h₁.2.1

theorem Scanner.resumption_suffix (s : Scanner) : s.resumption <:+ s.cursor.rest := by
  unfold resumption
  split
  · exact List.suffix_refl _
  · exact behindTerminator_suffix _

namespace Session

/-! ## Sessions on a text -/

/-- The session reads the text in the dialect. -/
def Reads (d : Dialect) (text : List Char) (s : Session) : Prop :=
  s.dialect = d ∧ (Invariant.inText d.keywords text).Ready s.scanner

variable {d : Dialect} {text : List Char} {s s' : Session}

theorem reads_ofText (d : Dialect) (b : Bindings) (text : List Char) :
    (ofText d b text).Reads d text := by
  refine ⟨rfl, rfl, ?_, fun t ht => nomatch ht⟩
  show (Text.Cursor.ofText text).rest <:+ text
  exact (Text.Cursor.rest_ofText text).symm ▸ List.suffix_refl text

/-- The first token of a statement is read from the text. -/
theorem Reads.held (h : s.Reads d text) {t : Token} {scanner : Scanner}
    (hfirst : firstToken s.scanner = .ok t scanner) :
    (Invariant.inText d.keywords text).Held t scanner := by
  obtain ⟨t', s₁, hfirst', hheld⟩ | ⟨r, s₁, c, hfirst', -⟩ := firstToken_inText h.2
  · rw [hfirst] at hfirst'
    cases hfirst'
    exact hheld
  · rw [hfirst] at hfirst'
    cases hfirst'

/-- So is the character that keeps a statement from beginning. -/
theorem Reads.unread (h : s.Reads d text) {r : Rejection} {scanner : Scanner}
    (hfirst : firstToken s.scanner = .error (.rejected r) scanner) :
    scanner.keywords = d.keywords ∧ scanner.latest = none ∧
      ∃ c, isTerminator c = false ∧ c :: scanner.cursor.rest <:+ text ∧
        (r.cause = .malformedNumber c ∨ r.cause = .unexpectedCharacter c) := by
  obtain ⟨t, s₁, hfirst', -⟩ | ⟨r', s₁, c, hfirst', hkeywords, hlatest, hc, hsuffix, hcause⟩ :=
    firstToken_inText h.2
  · rw [hfirst] at hfirst'
    cases hfirst'
  · rw [hfirst] at hfirst'
    cases hfirst'
    exact ⟨hkeywords, hlatest, c, hc, hsuffix, hcause⟩

/-- The rest of a statement is read from the same text. -/
theorem Reads.after_statementAfter (h : s.Reads d text) {t : Token} {scanner : Scanner}
    (hfirst : firstToken s.scanner = .ok t scanner) :
    (Invariant.inText d.keywords text).After
      (statementAfter s.dialect s.bindings t scanner) :=
  Invariant.after_statementAfter (fun _ => False.elim) (h.held hfirst)

/-- The session goes on in the same text after a value. -/
theorem Reads.value (h : s.Reads d text) {o : Outcome} (hturn : s.turn = .ok (some o) s') :
    s'.Reads d text := by
  cases turns_of_eq hturn with
  | carriedOut first quit after changed =>
    have hafter := h.after_statementAfter first
    rw [after] at hafter
    exact ⟨h.1, hafter⟩

/-- A statement is rejected in the same text. -/
theorem Reads.failed (h : s.Reads d text) {r : Rejection}
    (hturn : s.turn = .error (.rejected r) s') :
    s'.dialect = d ∧ (Invariant.inText d.keywords text).Failed s'.scanner := by
  cases turns_of_eq hturn with
  | unread first =>
    obtain ⟨hkeywords, -, c, -, hsuffix, -⟩ := h.unread first
    exact ⟨h.1, hkeywords, (List.suffix_cons _ _).trans hsuffix⟩
  | stopped first quit after =>
    have hafter := h.after_statementAfter first
    rw [after] at hafter
    exact ⟨h.1, hafter⟩
  | refused first quit after changed =>
    have hafter := h.after_statementAfter first
    rw [after] at hafter
    exact ⟨h.1, (Invariant.inText d.keywords text).failed_of_ready hafter⟩

/-- The session goes on in the same text after a recovery. -/
theorem Reads.recovery (h : s.Reads d text) {r : Rejection}
    (hturn : s.turn = .error (.rejected r) s') : s'.recover.2.Reads d text := by
  obtain ⟨hdialect, hkeywords, hrest⟩ := h.failed hturn
  obtain ⟨hslot, hresumption⟩ := recover_scanner s'
  refine ⟨by rw [recover_dialect, hdialect], by rw [recover_keywords, hkeywords], ?_, ?_⟩
  · rw [hresumption]
    exact s'.scanner.resumption_suffix.trans hrest
  · intro t ht
    rw [hslot] at ht
    cases ht

theorem Reaches.reads {s₀ : Session} (h : s₀.Reaches s) (h₀ : s₀.Reads d text) :
    s.Reads d text := by
  -- Induction on the way from the first session, with a step for each kind of turn.
  induction h with
  | refl => exact h₀
  | value _ hturn ih => exact ih.value hturn
  | recovery _ hturn ih => exact ih.recovery hturn

/-! ## Recovery -/

/-- While a statement is read, the resumption is the text behind the next
    terminator, as it was at the first token. -/
theorem Reads.resumption_of_statementAfter (h : s.Reads d text) (hd : d.IsBuiltIn) {t : Token}
    {scanner : Scanner} (hfirst : firstToken s.scanner = .ok t scanner) :
    (t.lexeme.toList ++ scanner.cursor.rest) <:+ text ∧
      (Invariant.resuming d.keywords hd.avoids_terminator
        (behindTerminator (t.lexeme.toList ++ scanner.cursor.rest))).After
        (statementAfter s.dialect s.bindings t scanner) := by
  obtain ⟨hkeywords, hslot, hwritten⟩ := h.held hfirst
  obtain ⟨hk, -, hlast, -⟩ := firstToken_ok hfirst
  refine ⟨hwritten.suffix, Invariant.after_statementAfter (fun u hu => ?_) ?_⟩
  · -- a terminator opens no group, so no reader reads on behind it
    rw [h.1]
    exact hd.groupsWithin.closing?_of_isStop (.inl hu)
  · -- the first token has no terminator in it
    refine ⟨hkeywords, ?_, hslot, hlast⟩
    rw [behindTerminator_append (hwritten.terminator_free hk), Scanner.resumption_of_other]
    intro u hu
    rw [Scanner.latest, hslot, hlast] at hu
    cases hu
    exact hk

/-- However far a statement was read before it is rejected, recovery leaves the
    slot empty and the cursor behind the first terminator at or after the first
    token of the statement, or the first character if that begins no token; at
    the end of the text if there is none. -/
theorem recover_resynchronises (hd : d.IsBuiltIn) {b : Bindings} {r : Rejection}
    (hs : (ofText d b text).Reaches s) (hturn : s.turn = .error (.rejected r) s') :
    ∃ start, start <:+ text ∧ s.scanner.StartsAt start ∧
      s'.recover.2.scanner.slot = none ∧
      s'.recover.2.scanner.cursor.rest = behindTerminator start := by
  have hreads := hs.reads (reads_ofText d b text)
  obtain ⟨hslot, hresumption⟩ := recover_scanner s'
  rw [hresumption]
  unfold Scanner.StartsAt
  cases turns_of_eq hturn with
  | unread first =>
    -- The offending character was passed over, and it is no terminator.
    obtain ⟨-, hlatest, c, hc, hsuffix, hcause⟩ := hreads.unread first
    rw [first]
    refine ⟨_, hsuffix, ⟨c, hcause, rfl⟩, hslot, ?_⟩
    rw [Scanner.resumption_of_other (by rw [hlatest]; exact fun t ht => nomatch ht)]
    have hone : ∀ d ∈ [c], isTerminator d = false := by simpa using hc
    exact (behindTerminator_append hone _).symm
  | stopped first quit after =>
    obtain ⟨hsuffix, hafter⟩ := hreads.resumption_of_statementAfter hd first
    rw [after] at hafter
    rw [first]
    exact ⟨_, hsuffix, rfl, hslot, hafter⟩
  | refused first quit after changed =>
    obtain ⟨hsuffix, hafter⟩ := hreads.resumption_of_statementAfter hd first
    rw [after] at hafter
    rw [first]
    exact ⟨_, hsuffix, rfl, hslot, hafter.2.1⟩

/-- In `1+;2` the terminator is the token that was not expected. -/
theorem recover_resynchronises_at_terminator :
    Dialect.full.IsBuiltIn ∧ ∃ (r : Rejection) (s' : Session),
      (ofText .full .initial "1+;2\n".toList).turn = .error (.rejected r) s' ∧
        ∃ start, start <:+ "1+;2\n".toList ∧
          (ofText .full .initial "1+;2\n".toList).scanner.StartsAt start ∧
          s'.recover.2.scanner.slot = none ∧
          s'.recover.2.scanner.cursor.rest = behindTerminator start := by
  refine ⟨.inl rfl, ?_⟩
  have hsteps : (ofText .full .initial "1+;2\n".toList).run.steps.take 1 =
      [.rejected ⟨.missingFactor, some ⟨"1+;2\n".toList, 2⟩⟩] := by decide +kernel
  rw [run_eq] at hsteps
  cases hturn : (ofText .full .initial "1+;2\n".toList).turn with
  | ok o s' =>
    rw [hturn] at hsteps
    cases o <;> cases hsteps
  | error e s' =>
    rw [hturn] at hsteps
    cases e with
    | rejected r => exact ⟨r, s', rfl, recover_resynchronises (.inl rfl) (.refl _) hturn⟩
    | unclosable | slotOccupied | budgetExhausted => cases hsteps

end Session

end Calculator
