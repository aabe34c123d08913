import Calculator.Proofs.Reading.Places
import Calculator.Proofs.Session.Blame
import Calculator.Proofs.Session.Faults
import Calculator.Proofs.Session.Recovery

/-! # Where errors are reported

    A statement stands on one line. If it cannot be read or has no value, the
    rejection has that line and the column of the item to blame; if only its
    action is refused, the rejection has no place
    (`Session.rejection_points_at_offender`). The line that is reported is the one
    that was read last, which is the line of the statement unless the end of the
    text has been read by then.
-/

namespace Calculator

open Reading Scanner
open Text (Cursor IsLine)

/-! ## Scanners in a text -/

/-- The scanner reads the text, and a token in its slot is from the current
    line. -/
structure Scanner.Stands (text : List Char) (s : Scanner) : Prop where
  cursor : s.cursor.In text
  slot : ∀ t, s.slot = some t → t.At s.cursor

section stands
variable {text : List Char} {c : Cursor} {s s' : Scanner} {t : Token}

theorem skipBlanks_in (h : c.In text) : (Token.skipBlanks c).In text :=
  ((h.refill).advance _).refill

theorem Scanner.Stands.of_get (h : s.Stands text) (hget : s.get = (.ok t, s')) :
    s'.Stands text ∧ t.At s'.cursor := by
  have hslot' := (slot_last_of_get hget).1
  have hnone {P : Token → Prop} : ∀ u, s'.slot = some u → P u := by
    intro u hu
    rw [hslot'] at hu
    cases hu
  cases hslot : s.slot with
  | none =>
    refine ⟨⟨?_, hnone⟩, Scanner.at_of_get hslot hget⟩
    rw [(Scanner.get_ok_place hslot hget).1]
    exact (skipBlanks_in h.cursor).advance _
  | some u =>
    have hat := h.slot u hslot
    simp only [Scanner.get, hslot, Prod.mk.injEq, Except.ok.injEq] at hget
    obtain ⟨rfl, rfl⟩ := hget
    exact ⟨⟨h.cursor, hnone⟩, hat⟩

/-- The first token of a statement stands on the current line; so does the
    character that keeps a statement from beginning. -/
theorem Scanner.Stands.firstToken (h : s.Stands text) :
    (∃ t s', Calculator.firstToken s = .ok t s' ∧ s'.Stands text ∧ t.At s'.cursor) ∨
      ∃ (s₁ : Scanner) (r : Rejection) (s' : Scanner),
        Calculator.firstToken s = .error (.rejected r) s' ∧ s₁.Stands text ∧
          s₁.get = (.error r, s') := by
  obtain ⟨s₁, t, s', h₁, hget, -, hfirst⟩ | ⟨s₁, r, s', h₁, hget, hfirst⟩ :=
    firstToken_cases (P := Scanner.Stands text) h fun h₁ hget _ => (h₁.of_get hget).1
  · exact .inl ⟨t, s', hfirst, h₁.of_get hget⟩
  · exact .inr ⟨s₁, r, s', hfirst, h₁, hget⟩

/-- A character that begins no token stands on the line that is current then. -/
theorem Scanner.Stands.character (h : s.Stands text) {r : Rejection}
    (hget : s.get = (.error r, s')) :
    ∃ (before : List Char) (k : Nat) (x : Char) (after : List Char),
      IsLine text before s'.cursor.line s'.cursor.unread ∧ s'.cursor.ended = false ∧
        r.place = some ⟨s'.cursor.line, k⟩ ∧ s'.cursor.line.drop k = x :: after ∧
        s'.cursor.rest = after ++ s'.cursor.unread ∧
        (r.cause = .malformedNumber x ∨ r.cause = .unexpectedCharacter x) := by
  obtain ⟨-, hcursor, hplace, x, after, hahead, -, hcause⟩ := Scanner.get_error_place hget
  have hne : (Token.skipBlanks s.cursor).line ≠ [] := by
    intro hnil
    rw [Cursor.ahead, hnil] at hahead
    simp at hahead
  obtain ⟨before, hline⟩ := (skipBlanks_in h.cursor).isLine hne
  rw [hcursor]
  refine ⟨before, _, x, after, hline, ?_, hplace, hahead, ?_, hcause⟩
  · -- there is a line, so the end has not been reported
    cases hended : (Token.skipBlanks s.cursor).ended with
    | false => exact hended
    | true => exact absurd ((Token.skipBlanks s.cursor).ended_empty hended).1 hne
  · rw [Cursor.rest, Cursor.ahead_advance, hahead]
    rfl

/-- A statement that has begun is read on the line of its first token. -/
theorem Token.At.begins {text : List Char} (hcursor : s.cursor.In text) (h : t.At s.cursor)
    (hslot : s.slot = none) (hquit : t.kind ≠ .quit) (hkind : t.kind ≠ .terminator) :
    ∃ (before : List Char) (hL : s.cursor.line ≠ []),
      IsLine text before s.cursor.line s.cursor.unread ∧
        (Invariant.onLine s.cursor.line s.cursor.unread hL).Held t s ∧
        ∃ k, k < s.cursor.line.length ∧
          t.lexeme.toList ++ s.cursor.rest = s.cursor.line.drop k ++ s.cursor.unread := by
  obtain ⟨k, -, htext, hk⟩ := h.text_eq
  have hlength := hk hquit
  have hL : s.cursor.line ≠ [] := by
    intro hnil
    rw [hnil] at hlength
    cases hlength
  obtain ⟨before, hline⟩ := hcursor.isLine hL
  exact ⟨before, hL, hline, ⟨hslot, h.on hquit hkind⟩, k, hlength, htext⟩

end stands

namespace Session

/-! ## Refused actions and offenders -/

/-- The statement has a value and asks for the action. -/
def Asks (s : Session) (a : Action) : Prop :=
  ∃ t scanner scanner', firstToken s.scanner = .ok t scanner ∧ t.kind ≠ .quit ∧
    statementAfter s.dialect s.bindings t scanner = .ok a scanner'

/-- The statement has a value, but the bindings do not allow its action. -/
inductive Refuses (s : Session) : Cause → Prop where
  | redeclared {name : String} {value : Float} {constant : Bool}
      (asks : s.Asks (.declare name value constant)) (taken : name ∈ s.bindings.names) :
    Refuses s (.alreadyDeclared name)
  | undeclared {name : String} {value : Float} (asks : s.Asks (.assign name value))
      (free : name ∉ s.bindings.names) :
    Refuses s (.undefinedName name)
  | constant {name : String} {value old : Float} (asks : s.Asks (.assign name value))
      (found : s.bindings.find? name = some ⟨name, old, true⟩) :
    Refuses s (.constantAssigned name)

/-- What is to blame if the statement is rejected while it is read, as it is
    written: a character that begins no token, or a token of the statement. -/
inductive Offender (s : Session) (r : Rejection) : List Char → Prop where
  /-- There is a character instead of a first token. -/
  | unread {x : Char} {scanner : Scanner}
      (first : firstToken s.scanner = .error (.rejected r) scanner)
      (cause : r.cause = .malformedNumber x ∨ r.cause = .unexpectedCharacter x) :
    Offender s r [x]
  /-- There is a character behind some tokens of the statement. -/
  | character {x : Char} {t : Token} {ts : List Token} {scanner s₁ s₂ : Scanner}
      (first : firstToken s.scanner = .ok t scanner) (given : (scanner.hold t).Gives ts s₁)
      (rejected : s₁.get = (.error r, s₂))
      (cause : r.cause = .malformedNumber x ∨ r.cause = .unexpectedCharacter x) :
    Offender s r [x]
  | token {t u : Token} {ts : List Token} {scanner s₁ : Scanner}
      (first : firstToken s.scanner = .ok t scanner) (given : (scanner.hold t).Gives ts s₁)
      (offence : StatementOffence s.dialect s.bindings ts u r.cause)
      (column : r.diagnostic.column = u.column) :
    Offender s r u.lexeme.toList

variable {text : List Char} {s s' : Session}

/-- An action that cannot be carried out is refused for one of three reasons. -/
theorem refuses_of_change? {a : Action} {cause : Cause} (h : s.Asks a)
    (hchange : s.bindings.change? a = .error cause) : s.Refuses cause := by
  cases a with
  | print v => cases hchange
  | declare name v constant =>
    obtain ⟨htaken, rfl⟩ := Bindings.change?_declare_eq_error.1 hchange
    exact .redeclared h (Bindings.find?_isSome_iff.1 htaken)
  | assign name v =>
    obtain ⟨hfree, rfl⟩ | ⟨old, hfound, rfl⟩ := Bindings.change?_assign_eq_error.1 hchange
    · exact .undeclared h (by simp [← Bindings.find?_isSome_iff, hfree])
    · exact .constant h hfound

/-- Nothing is refused before there is an action. -/
theorem Refuses.asks {cause : Cause} (h : s.Refuses cause) : ∃ a, s.Asks a := by
  cases h with
  | redeclared asks | undeclared asks | constant asks => exact ⟨_, asks⟩

theorem not_refuses_of_unread {e : Fault} {scanner : Scanner} {cause : Cause}
    (first : firstToken s.scanner = .error e scanner) : ¬ s.Refuses cause := by
  intro h
  obtain ⟨-, t, s₁, s₂, hfirst, -⟩ := h.asks
  rw [first] at hfirst
  cases hfirst

theorem not_refuses_of_stopped {t : Token} {e : Fault} {scanner scanner' : Scanner}
    {cause : Cause} (first : firstToken s.scanner = .ok t scanner)
    (after : statementAfter s.dialect s.bindings t scanner = .error e scanner') :
    ¬ s.Refuses cause := by
  intro h
  obtain ⟨a, u, s₁, s₂, hfirst, -, hafter⟩ := h.asks
  rw [first] at hfirst
  cases hfirst
  rw [after] at hafter
  cases hafter

/-! ## Sessions on a text -/

/-- What is known of a statement that has begun: the line that it stands on, and
    that the rest of it is read on this line. -/
structure Begun (text : List Char) (s : Session) (before line after : List Char) (t : Token)
    (scanner : Scanner) : Prop where
  isLine : IsLine text before line after
  starts : ∃ k, k < line.length ∧ s.scanner.StartsAt (line.drop k ++ after)
  nonempty : line ≠ []
  held : (Invariant.onLine line after nonempty).Held t scanner

theorem begun_of_firstToken (h : s.scanner.Stands text) {t : Token} {scanner : Scanner}
    (first : firstToken s.scanner = .ok t scanner) (quit : t.kind ≠ .quit) :
    ∃ before, s.Begun text before scanner.cursor.line scanner.cursor.unread t scanner := by
  obtain ⟨hkind, hslot, -⟩ := firstToken_ok first
  obtain ⟨u, s₁, hfirst, hstands, hat⟩ | ⟨s₁, r, s₂, hfirst, -⟩ := h.firstToken <;>
    rw [first] at hfirst <;> cases hfirst
  obtain ⟨before, hL, hline, hheld, k, hk, htext⟩ := hat.begins hstands.cursor hslot quit hkind
  refine ⟨before, hline, ⟨k, hk, ?_⟩, hL, hheld⟩
  rw [Scanner.StartsAt, first]
  exact htext.symm

/-- The rest of a statement is read on its line. -/
theorem Begun.after {before line after : List Char} {t : Token} {scanner : Scanner}
    (h : s.Begun text before line after t scanner) (hd : s.dialect.GroupsWithin .full) :
    (Invariant.onLine line after h.nonempty).After
      (statementAfter s.dialect s.bindings t scanner) :=
  Invariant.after_statementAfter (fun _ hu => hd.closing?_of_isStop (.inl hu)) h.held

/-- Wherever the rest of a statement ends, it has kept to the line. -/
theorem Begun.keeps_of_ok {before line after : List Char} {t : Token} {a : Action}
    {scanner scanner' : Scanner} (h : s.Begun text before line after t scanner)
    (hd : s.dialect.GroupsWithin .full)
    (done : statementAfter s.dialect s.bindings t scanner = .ok a scanner') :
    scanner'.cursor.Keeps line after := by
  have hready := h.after hd
  rw [done] at hready
  exact (Invariant.onLine line after h.nonempty).failed_of_ready hready

theorem Begun.keeps_of_error {before line after : List Char} {t : Token} {e : Fault}
    {scanner scanner' : Scanner} (h : s.Begun text before line after t scanner)
    (hd : s.dialect.GroupsWithin .full)
    (stopped : statementAfter s.dialect s.bindings t scanner = .error e scanner') :
    scanner'.cursor.Keeps line after := by
  have hfailed := h.after hd
  rwa [stopped] at hfailed

/-- The session goes on in the same text after a value. -/
theorem stands_of_value (h : s.scanner.Stands text) (hd : s.dialect.GroupsWithin .full)
    {o : Outcome} (hturn : s.turn = .ok (some o) s') : s'.scanner.Stands text := by
  cases turns_of_eq hturn with
  | carriedOut first quit after changed =>
    obtain ⟨before, hbegun⟩ := begun_of_firstToken h first quit
    have hready := hbegun.after hd
    rw [after] at hready
    exact ⟨(hbegun.keeps_of_ok hd after).in hbegun.isLine, fun u hu => (hready.2 u hu).at_cursor⟩

/-- The cursor is left in the text where a statement is rejected. -/
theorem in_of_rejected (h : s.scanner.Stands text) (hd : s.dialect.GroupsWithin .full)
    {r : Rejection} (hturn : s.turn = .error (.rejected r) s') : s'.scanner.cursor.In text := by
  cases turns_of_eq hturn with
  | unread first =>
    obtain ⟨t, s₁, hfirst, -⟩ | ⟨s₁, r', s₂, hfirst, hstands, hget⟩ := h.firstToken <;>
      rw [first] at hfirst <;> cases hfirst
    show Cursor.In text _
    rw [(Scanner.get_error_place hget).2.1]
    exact (skipBlanks_in hstands.cursor).advance 1
  | stopped first quit after =>
    obtain ⟨before, hbegun⟩ := begun_of_firstToken h first quit
    exact (hbegun.keeps_of_error hd after).in hbegun.isLine
  | refused first quit after changed =>
    obtain ⟨before, hbegun⟩ := begun_of_firstToken h first quit
    exact (hbegun.keeps_of_ok hd after).in hbegun.isLine

/-- The session goes on in the same text after a recovery, with an empty slot. -/
theorem stands_of_recovery (h : s.scanner.cursor.In text) : s.recover.2.scanner.Stands text := by
  refine ⟨?_, fun t ht => ?_⟩
  · rw [recover_eq, Scanner.ignore_eq]
    split
    · exact h
    · exact h.skipThrough _
  · rw [(recover_scanner s).1] at ht
    cases ht

theorem Reaches.stands {s₀ : Session} (h : s₀.Reaches s) (h₀ : s₀.scanner.Stands text)
    (hd : s₀.dialect.GroupsWithin .full) :
    s.dialect = s₀.dialect ∧ s.scanner.Stands text := by
  -- Induction on the way from the first session, with a step for each kind of turn.
  induction h with
  | refl => exact ⟨rfl, h₀⟩
  | value _ hturn ih =>
    obtain ⟨hdialect, hstands⟩ := ih
    exact ⟨(turn_dialect hturn).trans hdialect, stands_of_value hstands (hdialect ▸ hd) hturn⟩
  | recovery _ hturn ih =>
    obtain ⟨hdialect, hstands⟩ := ih
    refine ⟨?_, stands_of_recovery (in_of_rejected hstands (hdialect ▸ hd) hturn)⟩
    rw [recover_dialect, turn_error_dialect hturn, hdialect]

theorem stands_ofText (d : Dialect) (b : Bindings) (text : List Char) :
    (ofText d b text).scanner.Stands text :=
  ⟨Cursor.in_ofText text, fun _ ht => nomatch ht⟩

/-! ## Places of rejections -/

theorem diagnostic_of_place {r : Rejection} {p : Place} (h : r.place = some p) :
    r.diagnostic.line = p.line ∧ r.diagnostic.column = p.column := by
  rw [Rejection.diagnostic, h]
  exact ⟨rfl, rfl⟩

/-- What is to blame for a statement that cannot be read or has no value stands
    on its line, at the column that is reported. -/
theorem Begun.offender {before line after : List Char} {t : Token} {scanner scanner' : Scanner}
    {r : Rejection} (h : s.Begun text before line after t scanner)
    (hd : s.dialect.GroupsWithin .full) (first : firstToken s.scanner = .ok t scanner)
    (stopped : statementAfter s.dialect s.bindings t scanner = .error (.rejected r) scanner') :
    ∃ (item : List Char) (column : Nat), s.Offender r item ∧ r.diagnostic.column = column ∧
      item <+: line.drop column ∧
      r.diagnostic.line = if scanner'.cursor.ended then [] else line := by
  obtain ⟨-, hslot, hlast, -⟩ := firstToken_ok first
  have hready := (Invariant.onLine line after h.nonempty).ready_hold h.held
  cases statementAfter_blames hd hslot hlast stopped with
  | @character ts s₁ _ _ given plain rejected =>
    obtain ⟨hslot₁, hcursor, hplace, x, more, hahead, -, hcause⟩ :=
      Scanner.get_error_place rejected
    -- the blanks in front of the character are on the line, and so is the character
    have hready₁ := Invariant.ready_of_gives hready given plain
    have hline := (skipBlanks_inside (hready₁.1 hslot₁) h.nonempty).1.line_eq
    obtain ⟨hreported, hcolumn⟩ := diagnostic_of_place hplace
    split at hline
    · rw [Cursor.ahead, hline, List.drop_nil] at hahead
      cases hahead
    · next hended =>
      refine ⟨[x], _, .character first given rejected hcause, hcolumn, ?_, ?_⟩
      · rw [← hline, ← Cursor.ahead, hahead]
        exact ⟨more, rfl⟩
      · rw [hreported, hcursor, hline, Cursor.advance, if_neg hended]
  | @token ts u cause s₁ _ given offence =>
    obtain ⟨s₂, -, hon⟩ :=
      Invariant.held_of_gives hready given (offence.ne_terminator_of_mem hd) u offence.mem
    obtain ⟨k, hk, hlexeme⟩ := hon.prefix_line
    exact ⟨u.lexeme.toList, k, .token first given offence rfl, hk, hlexeme,
      (h.keeps_of_error hd stopped).line_eq⟩

/-- A character that keeps the statement from beginning stands on its line, and
    the statement starts at it. -/
theorem startsAt_of_unread {s₁ s₂ : Scanner} {r : Rejection} {line after more : List Char}
    {x : Char} {k : Nat} (first : firstToken s₁ = .error (.rejected r) s₂)
    (hcause : r.cause = .malformedNumber x ∨ r.cause = .unexpectedCharacter x)
    (hdrop : line.drop k = x :: more) (hrest : s₂.cursor.rest = more ++ after) :
    k < line.length ∧ s₁.StartsAt (line.drop k ++ after) := by
  constructor
  · have hlength := congrArg List.length hdrop
    simp only [List.length_drop, List.length_cons] at hlength
    omega
  · rw [Scanner.StartsAt, first, hdrop]
    exact ⟨x, hcause, by rw [hrest]; rfl⟩

/-- So does a character that keeps the statement from beginning. The line that it
    is on has been read, so the text has not ended. -/
theorem unread_offender (h : s.scanner.Stands text) {r : Rejection} {scanner : Scanner}
    (first : firstToken s.scanner = .error (.rejected r) scanner) :
    ∃ (before line after : List Char) (k : Nat) (item : List Char), IsLine text before line after ∧
      k < line.length ∧ s.scanner.StartsAt (line.drop k ++ after) ∧ s.Offender r item ∧
        r.diagnostic.column = k ∧ item <+: line.drop k ∧ r.diagnostic.line = line ∧
          scanner.cursor.ended = false := by
  obtain ⟨t, s₁, hfirst, -⟩ | ⟨s₁, r', s₂, hfirst, hstands, hget⟩ := h.firstToken <;>
    rw [first] at hfirst <;> cases hfirst
  obtain ⟨before, k, x, more, hline, hended, hplace, hdrop, hrest, hcause⟩ :=
    hstands.character hget
  obtain ⟨hreported, hcolumn⟩ := diagnostic_of_place hplace
  obtain ⟨hk, hstart⟩ := startsAt_of_unread first hcause hdrop hrest
  refine ⟨before, _, _, k, [x], hline, hk, hstart, .unread first hcause, hcolumn, ?_, hreported,
    hended⟩
  rw [hdrop]
  exact ⟨more, rfl⟩

/-- Every rejection is of one of two sorts. If the statement has a value and only
    its action is refused, which is a declaration of a name that is taken or an
    assignment to no variable, there is no place. Otherwise the line that the
    statement stands on is reported, with its line feed, and from the reported
    column on it starts with the item to blame. If the line has no line feed, and
    the end of the text has been read when the statement is rejected, just the
    line is missing. -/
theorem rejection_points_at_offender {d : Dialect} (hd : d.IsBuiltIn) {b : Bindings}
    {r : Rejection} (hs : (ofText d b text).Reaches s)
    (hturn : s.turn = .error (.rejected r) s') :
    ∃ (before line after : List Char) (start : Nat), IsLine text before line after ∧
      start < line.length ∧ s.scanner.StartsAt (line.drop start ++ after) ∧
      ((s.Refuses r.cause ∧ r.diagnostic.line = [] ∧ r.diagnostic.column = -1) ∨
        ((∀ cause, ¬ s.Refuses cause) ∧
          ∃ (item : List Char) (column : Nat), s.Offender r item ∧
            r.diagnostic.column = column ∧ item <+: line.drop column ∧
            r.diagnostic.line = if s'.scanner.cursor.ended then [] else line)) ∧
      (text.getLast? = some '\n' →
        line.getLast? = some '\n' ∧ s'.scanner.cursor.ended = false) := by
  obtain ⟨hdialect, hstands⟩ := hs.stands (stands_ofText d b text) hd.groupsWithin
  have hgroups : s.dialect.GroupsWithin .full := hdialect ▸ hd.groupsWithin
  cases turns_of_eq hturn with
  | unread first =>
    obtain ⟨before, line, after, k, item, hline, hk, hstart, hitem, hcolumn, hlexeme, hreported,
      hended⟩ := unread_offender hstands first
    have hne : line ≠ [] := List.ne_nil_of_length_pos (Nat.zero_lt_of_lt hk)
    refine ⟨before, line, after, k, hline, hk, hstart, .inr ⟨fun cause =>
      not_refuses_of_unread first, item, k, hitem, hcolumn, hlexeme, ?_⟩, fun htext =>
      ⟨hline.getLast? hne htext, hended⟩⟩
    rw [if_neg (by simp [hended]), hreported]
  | stopped first quit after =>
    obtain ⟨before, hbegun⟩ := begun_of_firstToken hstands first quit
    obtain ⟨k, hk, hstart⟩ := hbegun.starts
    refine ⟨before, _, _, k, hbegun.isLine, hk, hstart, .inr ⟨fun cause =>
      not_refuses_of_stopped first after, hbegun.offender hgroups first after⟩, fun htext => ?_⟩
    have hfeed := hbegun.isLine.getLast? hbegun.nonempty htext
    exact ⟨hfeed, (hbegun.keeps_of_error hgroups after).not_ended hfeed⟩
  | refused first quit after changed =>
    obtain ⟨before, hbegun⟩ := begun_of_firstToken hstands first quit
    obtain ⟨k, hk, hstart⟩ := hbegun.starts
    refine ⟨before, _, _, k, hbegun.isLine, hk, hstart, .inl ⟨?_, rfl, rfl⟩, fun htext => ?_⟩
    · exact refuses_of_change? ⟨_, _, _, first, quit, after⟩ changed
    · have hfeed := hbegun.isLine.getLast? hbegun.nonempty htext
      exact ⟨hfeed, (hbegun.keeps_of_ok hgroups after).not_ended hfeed⟩

/-- The line feed has been read when the divisor turns out to be zero; the operator
    is blamed all the same. -/
theorem rejection_points_at_operator :
    let s := ofText .full .initial "8 / (1 - 1)\n".toList
    Dialect.full.IsBuiltIn ∧ ∃ (r : Rejection) (s' : Session), s.turn = .error (.rejected r) s' ∧
      ∃ (before line after : List Char) (start : Nat),
        IsLine "8 / (1 - 1)\n".toList before line after ∧ start < line.length ∧
          s.scanner.StartsAt (line.drop start ++ after) ∧
          ((s.Refuses r.cause ∧ r.diagnostic.line = [] ∧ r.diagnostic.column = -1) ∨
            ((∀ cause, ¬ s.Refuses cause) ∧
              ∃ (item : List Char) (column : Nat), s.Offender r item ∧
                r.diagnostic.column = column ∧ item <+: line.drop column ∧
                r.diagnostic.line = if s'.scanner.cursor.ended then [] else line)) ∧
          ("8 / (1 - 1)\n".toList.getLast? = some '\n' →
            line.getLast? = some '\n' ∧ s'.scanner.cursor.ended = false) := by
  intro s
  refine ⟨.inl rfl, ?_⟩
  have hsteps : s.run.steps.take 1 =
      [.rejected ⟨.divisionByZero, some ⟨"8 / (1 - 1)\n".toList, 2⟩⟩] := by decide +kernel
  rw [run_eq] at hsteps
  cases hturn : s.turn with
  | ok o s' =>
    rw [hturn] at hsteps
    cases o <;> cases hsteps
  | error e s' =>
    rw [hturn] at hsteps
    cases e with
    | rejected r => exact ⟨r, s', rfl, rejection_points_at_offender (.inl rfl) (.refl _) hturn⟩
    | unclosable | slotOccupied | budgetExhausted => cases hsteps

/-- Without a line feed behind it the same error has its column only. -/
example : (ofText .full .initial "8 / (1 - 1)".toList).run.steps =
    [.rejected ⟨.divisionByZero, some ⟨[], 2⟩⟩] := by decide +kernel

end Session

end Calculator
