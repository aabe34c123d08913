import Calculator.Proofs.Reading.Longer
import Calculator.Proofs.Session.Isolation
import Calculator.Proofs.Session.Places

/-! # A line at a time

    Of a text of whole lines, a turn of a session asks for the line of its
    statement and for no line behind it, whether the statement has a value or is
    rejected and given up (`turn_stays`, `recovery_stays`).

    So the lines behind do not matter for a turn. Two sessions of which the
    second one has more text behind the lines of the first one make the same
    turns, until the first one waits for more text (`Longer.turn`). With that
    text supplied, it goes on as the second one does.
-/

namespace Calculator

open Reading Scanner
open Text (Cursor IsLine WholeLines isBlank)

namespace Session

variable {text line after z : List Char} {s s' s₁ s₂ : Session} {t : Token}
  {scanner scanner' : Scanner}

/-! ## On the line of the statement -/

/-- The next statement of the session begins on the line. -/
structure BeginsOn (text line after : List Char) (s : Session) : Prop where
  isLine : ∃ before, IsLine text before line after
  starts : ∃ k, k < line.length ∧ s.scanner.StartsAt (line.drop k ++ after)

/-- The scanner is on the line, and the line feed is ahead unless a terminator was
    read last. -/
structure KeptOn (line after : List Char) (scanner : Scanner) : Prop where
  stays : scanner.cursor.StaysOn line after
  newline : scanner.NewlineAhead

/-- A character that keeps a statement from beginning stands on the line. -/
theorem unread_kept (h : s.scanner.Stands text) (htext : WholeLines text) {r : Rejection}
    (first : firstToken s.scanner = .error (.rejected r) scanner) :
    ∃ line after, s.BeginsOn text line after ∧ KeptOn line after scanner := by
  obtain ⟨t, s₁, hfirst, -⟩ | ⟨s₁, r', s₂, hfirst, hstands, hget⟩ := h.firstToken <;>
    rw [first] at hfirst <;> cases hfirst
  obtain ⟨before, k, x, more, hline, hended, -, hdrop, hrest, hcause⟩ := hstands.character hget
  obtain ⟨hk, hstart⟩ := startsAt_of_unread first hcause hdrop hrest
  have hne : scanner.cursor.line ≠ [] := List.ne_nil_of_length_pos (Nat.zero_lt_of_lt hk)
  have hfeed := hline.newline hne htext
  exact ⟨_, _, ⟨⟨before, hline⟩, k, hk, hstart⟩, ⟨rfl, rfl, hended⟩,
    newlineAhead_of_get_error hget hfeed⟩

/-- On its line, the rest of a statement is read in the same way whatever is behind
    the text. -/
theorem Begun.both {before : List Char} (h : s.Begun text before line after t scanner)
    (hd : s.dialect.GroupsWithin .full) (hlast : scanner.last = some t)
    (hfeed : line.getLast? = some '\n') (hlonger : scanner.Longer z scanner') :
    let L := Lockstep.longer z line after h.nonempty hfeed
    L.Both (statementAfter s.dialect s.bindings t) (statementAfter s.dialect s.bindings t) scanner
      scanner' L.Agreed :=
  Lockstep.both_statementAfter (fun _ hu => hd.closing?_of_isStop (.inl hu))
    ⟨rfl, hlast, hlonger, h.held⟩

/-- Wherever the rest of a statement ends, the line has been kept. -/
theorem Begun.kept {before : List Char} (h : s.Begun text before line after t scanner)
    (hd : s.dialect.GroupsWithin .full) (hlast : scanner.last = some t)
    (htext : WholeLines text) :
    match statementAfter s.dialect s.bindings t scanner with
    | .ok _ scanner' | .error _ scanner' => KeptOn line after scanner' := by
  have hfeed := h.isLine.newline h.nonempty htext
  have hkeeps : scanner.cursor.Keeps line after := Invariant.failed_of_held _ h.held
  have hself : scanner.Longer [] scanner :=
    ⟨rfl, rfl, rfl, (hkeeps.in h.isLine).longer_self htext (hkeeps.not_ended hfeed)⟩
  have hboth := h.both hd hlast hfeed hself
  unfold Lockstep.Both at hboth
  cases hresult : statementAfter s.dialect s.bindings t scanner with
  | ok a scanner' =>
    rw [hresult] at hboth
    obtain ⟨-, hkeeps', hnewline⟩ := Lockstep.failed_of_ready _ hboth.2
    exact ⟨hkeeps'.staysOn hfeed, hnewline⟩
  | error e scanner' =>
    rw [hresult] at hboth
    obtain ⟨-, -, hkeeps', hnewline⟩ := hboth
    exact ⟨hkeeps'.staysOn hfeed, hnewline⟩

/-- A turn that is not the end of the session stays on the line of its statement. -/
theorem turn_kept (h : s.scanner.Stands text) (hd : s.dialect.GroupsWithin .full)
    (htext : WholeLines text) :
    match s.turn with
    | .ok none _ => True
    | .ok (some _) s' | .error _ s' =>
      ∃ line after, s.BeginsOn text line after ∧ KeptOn line after s'.scanner := by
  have hrest {t scanner} (first : firstToken s.scanner = .ok t scanner) (quit : t.kind ≠ .quit) :
      ∃ line after, s.BeginsOn text line after ∧
        match statementAfter s.dialect s.bindings t scanner with
        | .ok _ scanner' | .error _ scanner' => KeptOn line after scanner' := by
    obtain ⟨before, hbegun⟩ := begun_of_firstToken h first quit
    exact ⟨_, _, ⟨⟨before, hbegun.isLine⟩, hbegun.starts⟩,
      hbegun.kept hd (firstToken_ok first).2.2.1 htext⟩
  cases hturn : s.turn with
  | ok o s' =>
    cases turns_of_eq hturn with
    | ended => trivial
    | carriedOut first quit after =>
      have hkept := hrest first quit
      rwa [after] at hkept
  | error e s' =>
    cases turns_of_eq hturn with
    | unread first => exact unread_kept h htext first
    | stopped first quit after | refused first quit after =>
      have hkept := hrest first quit
      rwa [after] at hkept

theorem recover_fst_eq (s : Session) :
    s.recover.1 =
      match (s.scanner.ignore .terminator).1 with
      | none => [.recovering]
      | some count => [.recovering, .skipped count .terminator] := by
  unfold recover
  split <;> next h => rw [h]

/-- Recovery discards the rest of the statement on the same line. -/
theorem KeptOn.recover (h : KeptOn line after s.scanner) :
    s.recover.2.scanner.cursor.StaysOn line after := by
  rw [recover_eq]
  exact h.newline.ignore h.stays

end Session

/-! ## First tokens -/

namespace Scanner

variable {z : List Char} {s₁ s₂ : Scanner}

/-- Where nothing is left, the end of the text is handed out. With more text supplied
    behind it, the next token is that of the longer scanner. -/
theorem Longer.get_at_end (h : s₁.Longer z s₂) (hslot : s₁.slot = none)
    (hrest : s₁.cursor.rest = []) :
    ∃ t s', s₁.get = (.ok t, s') ∧ t.kind = .quit ∧ s'.cursor.ended = true ∧
      s₂.get = Scanner.get { s' with cursor := s'.cursor.resume z } := by
  obtain ⟨c₁, _, _, _⟩ := s₁
  obtain ⟨c₂, keywords, slot, last⟩ := s₂
  obtain ⟨hkeywords, hslot', hlast, hcursor⟩ := h
  dsimp only at hkeywords hslot' hlast hcursor hslot hrest
  subst hkeywords hslot' hlast hslot
  have hended : (Token.skipBlanks c₁).ended = true := by
    have hsuffix := c₁.refill.rest_advance_suffix (c₁.refill.ahead.takeWhile isBlank).length
    rw [Cursor.rest_refill, hrest, List.suffix_nil] at hsuffix
    exact Cursor.ended_refill hsuffix
  have hscan : Token.scan keywords c₁ = (.ok ⟨.quit, "", 0, (Token.skipBlanks c₁).column⟩,
      (Token.skipBlanks c₁).advance 0) := by
    rw [Token.scan_eq, hrest]
    rfl
  refine ⟨_, _, by rw [Scanner.get, hscan], rfl, hended, ?_⟩
  have hresume := Cursor.refill_resume (c := (Token.skipBlanks c₁).advance 0) hended z
  unfold Scanner.get
  dsimp only
  rw [Session.scan_congr ((hcursor.refill_at_end hrest).trans hresume.symm)]

/-- The first tokens of the next statements are the same, or the same character
    keeps both from beginning, or the first scanner is at its end and wants the text
    that the second one has. -/
theorem Longer.firstToken (h : s₁.Longer z s₂) :
    (∃ t s₁' s₂', Calculator.firstToken s₁ = .ok t s₁' ∧ Calculator.firstToken s₂ = .ok t s₂' ∧
      s₁'.Longer z s₂') ∨
    (∃ r s₁' s₂', Calculator.firstToken s₁ = .error (.rejected r) s₁' ∧
      Calculator.firstToken s₂ = .error (.rejected r) s₂' ∧ s₁'.Longer z s₂') ∨
    ∃ t s', Calculator.firstToken s₁ = .ok t s' ∧ t.kind = .quit ∧ s'.cursor.ended = true ∧
      Calculator.firstToken s₂ =
        Calculator.firstToken { s' with cursor := s'.cursor.resume z } := by
  -- Terminators are passed over on both sides.
  induction hn : s₁.remaining using Nat.strongRecOn generalizing s₁ s₂ with
  | ind n ih =>
    subst hn
    by_cases hend : s₁.slot = none ∧ s₁.cursor.rest = []
    · obtain ⟨t, s', h₁, hquit, hended, h₂⟩ := h.get_at_end hend.1 hend.2
      exact .inr (.inr ⟨t, s', firstToken_of_other h₁ (by simp [hquit]), hquit, hended,
        firstToken_congr h₂⟩)
    · obtain ⟨outcome, s₁', s₂', h₁, h₂, hrest⟩ :=
        h.get fun hslot hnil => hend ⟨hslot, hnil⟩
      cases outcome with
      | error r =>
        exact .inr (.inl ⟨r, s₁', s₂', firstToken_of_error h₁, firstToken_of_error h₂, hrest⟩)
      | ok t =>
        by_cases hk : t.kind = .terminator
        · have hle := get_remaining_le h₁
          have hw := Token.weight_of_kind (t := t) (by simp [hk])
          rw [firstToken_of_terminator h₁ hk, firstToken_of_terminator h₂ hk]
          exact ih s₁'.remaining (by omega) hrest rfl
        · exact .inl ⟨t, s₁', s₂', firstToken_of_other h₁ hk, firstToken_of_other h₂ hk, hrest⟩

end Scanner

namespace Session

variable {text z : List Char} {s₁ s₂ : Session}

/-! ## More lines behind the text -/

/-- The sessions are alike, but the second one has the text `z` behind the lines of
    the first one. -/
structure Longer (z : List Char) (s₁ s₂ : Session) : Prop where
  dialect : s₂.dialect = s₁.dialect
  bindings : s₂.bindings = s₁.bindings
  scanner : s₁.scanner.Longer z s₂.scanner

theorem longer_ofText (h : WholeLines text) (d : Dialect) (b : Bindings) (z : List Char) :
    (ofText d b text).Longer z (ofText d b (text ++ z)) :=
  ⟨rfl, rfl, Scanner.longer_ofText h d.keywords z⟩

/-- A session in the middle of its text does not wait for more. -/
theorem Longer.isWaiting (h : s₁.Longer z s₂) : s₁.isWaiting = false :=
  h.scanner.cursor.not_ended.1

/-- What a turn comes to if there is more text behind the lines. -/
inductive TurnsLonger (z : List Char) (s₁ s₂ : Session) : Prop where
  | value {o s₁' s₂'} (left : s₁.turn = .ok (some o) s₁') (right : s₂.turn = .ok (some o) s₂')
    (longer : s₁'.Longer z s₂')
  | rejected {r s₁' s₂'} (left : s₁.turn = .error (.rejected r) s₁')
    (right : s₂.turn = .error (.rejected r) s₂') (records : s₂'.recover.1 = s₁'.recover.1)
    (longer : s₁'.recover.2.Longer z s₂'.recover.2)
  /-- Both sessions are ended by the same word. -/
  | ended {s₁' s₂'} (left : s₁.turn = .ok none s₁') (right : s₂.turn = .ok none s₂')
    (longer : s₁'.Longer z s₂')
  /-- The first session waits for more text, and goes on as the second one does if it
      gets that text. -/
  | waits {s₁'} (left : s₁.turn = .ok none s₁') (waiting : s₁'.isWaiting = true)
    (right : s₂.turn = (s₁'.resume z).turn)

/-- Giving up a statement on its line is the same on both sides. -/
theorem Longer.recover (h : s₁.Longer z s₂) (hnewline : s₁.scanner.NewlineAhead) :
    s₂.recover.1 = s₁.recover.1 ∧ s₁.recover.2.Longer z s₂.recover.2 := by
  obtain ⟨hrecords, hscanner⟩ := h.scanner.ignore hnewline
  refine ⟨?_, ?_⟩
  · rw [recover_fst_eq, recover_fst_eq, hrecords]
  · rw [recover_eq, recover_eq]
    exact ⟨h.dialect, h.bindings, hscanner⟩

/-- A statement whose first token is on the same line comes to the same. -/
theorem Longer.turn_of_first (h : s₁.Longer z s₂) (hstands : s₁.scanner.Stands text)
    (hd : s₁.dialect.GroupsWithin .full) (htext : WholeLines text) {t : Token}
    {scanner₁ scanner₂ : Scanner} (h₁ : firstToken s₁.scanner = .ok t scanner₁)
    (h₂ : firstToken s₂.scanner = .ok t scanner₂) (hlonger : scanner₁.Longer z scanner₂) :
    TurnsLonger z s₁ s₂ := by
  by_cases hquit : t.kind = .quit
  · exact .ended (turn_of_quit h₁ hquit) (turn_of_quit h₂ hquit) ⟨h.dialect, h.bindings, hlonger⟩
  · obtain ⟨before, hbegun⟩ := begun_of_firstToken hstands h₁ hquit
    have hboth := hbegun.both hd (firstToken_ok h₁).2.2.1
      (hbegun.isLine.newline hbegun.nonempty htext) hlonger
    unfold Lockstep.Both at hboth
    cases hr₁ : statementAfter s₁.dialect s₁.bindings t scanner₁ <;>
      cases hr₂ : statementAfter s₁.dialect s₁.bindings t scanner₂ <;> rw [hr₁, hr₂] at hboth <;>
      rw [← h.dialect, ← h.bindings] at hr₂
    case ok.ok a₁ r₁ a₂ r₂ =>
      -- The same action is carried out with the same bindings, or refused for the same cause.
      obtain ⟨rfl, hready⟩ := hboth
      obtain ⟨hrest, -, hnewline⟩ := Lockstep.failed_of_ready _ hready
      have hturn₁ := turn_of_action h₁ hquit hr₁
      have hturn₂ := turn_of_action h₂ hquit hr₂
      rw [h.bindings] at hturn₂
      cases hchange : s₁.bindings.change? a₁ <;> rw [hchange] at hturn₁ hturn₂
      case error cause =>
        have hfailed : Longer z { s₁ with scanner := r₁ } { s₂ with scanner := r₂ } :=
          ⟨h.dialect, h.bindings, hrest⟩
        obtain ⟨hrecords, hrecovered⟩ := hfailed.recover hnewline
        rw [h.bindings] at hrecords hrecovered
        exact .rejected hturn₁ hturn₂ hrecords hrecovered
      case ok change =>
        exact .value hturn₁ hturn₂ ⟨h.dialect, rfl, hrest⟩
    case error.error e₁ r₁ e₂ r₂ =>
      -- Every group can be closed, so both statements are rejected, in the same place.
      obtain ⟨hfault, hrest, -, hnewline⟩ := hboth
      have hturn₁ := turn_of_stopped h₁ hquit hr₁
      have hturn₂ := turn_of_stopped h₂ hquit hr₂
      obtain ⟨c₁, rfl⟩ := turn_error_of_closable hd.closable hturn₁
      obtain ⟨c₂, rfl⟩ := turn_error_of_closable (h.dialect ▸ hd.closable) hturn₂
      obtain rfl : c₁ = c₂ := hfault
      have hfailed : Longer z { s₁ with scanner := r₁ } { s₂ with scanner := r₂ } :=
        ⟨h.dialect, h.bindings, hrest⟩
      obtain ⟨hrecords, hrecovered⟩ := hfailed.recover hnewline
      exact .rejected hturn₁ hturn₂ hrecords hrecovered
    all_goals exact hboth.elim

/-- With more text behind the lines a turn comes to the same, unless the session
    waits for more text. -/
theorem Longer.turn (h : s₁.Longer z s₂) (hstands : s₁.scanner.Stands text)
    (hd : s₁.dialect.GroupsWithin .full) (htext : WholeLines text) : TurnsLonger z s₁ s₂ := by
  obtain ⟨t, scanner₁, scanner₂, h₁, h₂, hlonger⟩ |
    ⟨r, scanner₁, scanner₂, h₁, h₂, hlonger⟩ | ⟨t, scanner, h₁, hquit, hended, h₂⟩ :=
    h.scanner.firstToken
  · exact h.turn_of_first hstands hd htext h₁ h₂ hlonger
  · have hfailed : Longer z { s₁ with scanner := scanner₁ } { s₂ with scanner := scanner₂ } :=
      ⟨h.dialect, h.bindings, hlonger⟩
    obtain ⟨_, _, -, hkept⟩ := unread_kept hstands htext h₁
    obtain ⟨hrecords, hrecovered⟩ := hfailed.recover hkept.newline
    exact .rejected (turn_of_error h₁) (turn_of_error h₂) hrecords hrecovered
  · exact .waits (turn_of_quit h₁ hquit) hended (turn_congr h.dialect h.bindings h₂)

end Session

end Calculator
