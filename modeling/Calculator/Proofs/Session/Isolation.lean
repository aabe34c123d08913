import Calculator.Proofs.Session.Apart
import Calculator.Proofs.Session.Faults
import Calculator.Proofs.Session.Recovery

/-! # Statements are isolated from each other

    A session on two texts with a terminator between them is a session on the
    first text, followed by one on the second that starts with the bindings that
    the first one left (`run_append_terminator`). Neither what a statement in
    the first text leaves unfinished nor how it is rejected reaches into the
    second one. A word that ends the session ends it for both.

    The two sessions are followed turn by turn. They stay apart by the second
    text until the first one is at its end (`Apart.turn`), and from there on the
    other one does what a session on the second text does.
-/

namespace Calculator

open Reading Scanner

namespace Session

/-! ## Verdicts -/

/-- What a step says, apart from the place of an error. -/
def Step.verdict : Step → Except Cause Float
  | .value v => .ok v
  | .rejected r => .error r.cause

/-- What the steps of a run say. -/
def Run.verdicts (r : Run) : List (Except Cause Float) := r.steps.map Step.verdict

/-- Whether a run was ended by a word, not by the end of the text. -/
def Run.stoppedByWord (r : Run) : Bool :=
  r.fault.isNone && r.final.scanner.last.any fun t => t.kind = .quit && !t.isEnd

@[simp] theorem Run.verdicts_after (step : Step) (r : Run) :
    (r.after step).verdicts = step.verdict :: r.verdicts := rfl

/-! ## Turns -/

variable {d : Dialect} {text z : List Char} {s₁ s₂ : Session}

/-- The sessions are alike, but for what the second one reads at `z`. -/
structure Apart (z : List Char) (s₁ s₂ : Session) : Prop where
  dialect : s₂.dialect = s₁.dialect
  bindings : s₂.bindings = s₁.bindings
  scanner : BetweenApart z s₁.scanner s₂.scanner

/-- A turn is decided by the first token of its statement. -/
theorem turn_congr {s s' : Session} (hdialect : s.dialect = s'.dialect)
    (hbindings : s.bindings = s'.bindings)
    (hfirst : firstToken s.scanner = firstToken s'.scanner) : s.turn = s'.turn := by
  rw [turn_eq, turn_eq, hfirst, hdialect, hbindings]

/-- What a turn comes to in sessions that are apart. -/
inductive TurnsApart (z : List Char) (s₁ s₂ : Session) : Prop where
  | value {o s₁' s₂'} (left : s₁.turn = .ok (some o) s₁') (right : s₂.turn = .ok (some o) s₂')
    (apart : s₁'.Apart z s₂')
  | rejected {r₁ r₂ s₁' s₂'} (left : s₁.turn = .error (.rejected r₁) s₁')
    (right : s₂.turn = .error (.rejected r₂) s₂') (cause : r₁.cause = r₂.cause)
    (apart : s₁'.recover.2.Apart z s₂'.recover.2)
  /-- Both sessions are ended by the same word. -/
  | ended {s₁' s₂' t} (left : s₁.turn = .ok none s₁') (right : s₂.turn = .ok none s₂')
    (bindings : s₂'.bindings = s₁'.bindings) (last : s₁'.scanner.last = some t)
    (kind : t.kind = .quit) (word : z = [] ∨ t.isEnd = false)
  /-- The first session is at its end, and the second one goes on. -/
  | passed {s₁' t scanner} (left : s₁.turn = .ok none s₁')
    (right : s₂.turn = Session.turn { s₂ with scanner }) (bindings : s₁'.bindings = s₂.bindings)
    (last : s₁'.scanner.last = some t) (isEnd : t.isEnd = true)
    (passed : PassedTo z s₁'.scanner scanner)

/-- Sessions that are rejected for the same cause are apart again after the
    recovery. -/
theorem apart_recover (hdialect : s₂.dialect = s₁.dialect) (hbindings : s₂.bindings = s₁.bindings)
    (hz : Detached z) (hfailed : FailedApart z s₁.scanner s₂.scanner) :
    s₁.recover.2.Apart z s₂.recover.2 := by
  refine ⟨by simpa using hdialect, by simpa using hbindings, ?_⟩
  rw [recover_eq, recover_eq]
  exact hfailed.ignore hz

/-- A statement whose first tokens are alike comes to the same on both sides. -/
theorem Apart.turn_of_held (h : s₁.Apart z s₂) (hd : s₁.dialect.GroupsWithin .full)
    (hz : Detached z) {t u : Token} {s₁' s₂' : Scanner}
    (h₁ : firstToken s₁.scanner = .ok t s₁') (h₂ : firstToken s₂.scanner = .ok u s₂')
    (hheld : HeldApart z t u s₁' s₂') (hapart : Scanner.Apart z s₁' s₂') :
    TurnsApart z s₁ s₂ := by
  obtain ⟨halike, hword⟩ := hheld.alike hapart
  by_cases hquit : t.kind = .quit
  · exact .ended (turn_of_quit h₁ hquit) (turn_of_quit h₂ (halike.kind ▸ hquit)) h.bindings
      hheld.last_left hquit hword
  · have hquit₂ : u.kind ≠ .quit := halike.kind ▸ hquit
    have hboth := Lockstep.both_statementAfter (L := .apart z hz) (b := s₁.bindings)
      (fun t ht => hd.closing?_of_isStop ht) hheld
    unfold Lockstep.Both at hboth
    cases hr₁ : statementAfter s₁.dialect s₁.bindings t s₁' <;>
      cases hr₂ : statementAfter s₁.dialect s₁.bindings u s₂' <;> rw [hr₁, hr₂] at hboth <;>
      rw [← h.dialect, ← h.bindings] at hr₂
    case ok.ok a₁ r₁ a₂ r₂ =>
      -- The same action is carried out with the same bindings, or refused for the same cause.
      obtain ⟨rfl, hready⟩ := hboth
      have hturn₁ := turn_of_action h₁ hquit hr₁
      have hturn₂ := turn_of_action h₂ hquit₂ hr₂
      rw [h.bindings] at hturn₂
      cases hchange : s₁.bindings.change? a₁ <;> rw [hchange] at hturn₁ hturn₂
      case error cause =>
        refine .rejected hturn₁ hturn₂ rfl (apart_recover h.dialect ?_ hz ?_)
        · rfl
        · exact ReadyApart.failed hready
      case ok change =>
        exact .value hturn₁ hturn₂ ⟨h.dialect, rfl, .inl hready⟩
    case error.error e₁ r₁ e₂ r₂ =>
      -- Every group can be closed, so both statements are rejected.
      obtain ⟨hfault, hfailed⟩ := hboth
      have hturn₁ := turn_of_stopped h₁ hquit hr₁
      have hturn₂ := turn_of_stopped h₂ hquit₂ hr₂
      obtain ⟨c₁, rfl⟩ := turn_error_of_closable hd.closable hturn₁
      obtain ⟨c₂, rfl⟩ := turn_error_of_closable (h.dialect ▸ hd.closable) hturn₂
      exact .rejected hturn₁ hturn₂ hfault (apart_recover h.dialect h.bindings hz hfailed)
    all_goals exact hboth.elim

/-- Sessions that are apart make the same turn, unless the first one is at its
    end. -/
theorem Apart.turn (h : s₁.Apart z s₂) (hd : s₁.dialect.GroupsWithin .full)
    (hz : Detached z) : TurnsApart z s₁ s₂ := by
  obtain hready | ⟨hslot₁, hslot₂, hkeywords, hcursor⟩ := h.scanner
  · obtain ⟨t, u, s₁', s₂', h₁, h₂, hheld, hapart⟩ |
      ⟨r₁, r₂, s₁', s₂', h₁, h₂, hcause, hapart⟩ | ⟨t, s₁', s, h₁, hend, h₂, hpassed⟩ :=
      hready.firstToken hz
    · exact h.turn_of_held hd hz h₁ h₂ hheld hapart
    · exact .rejected (turn_of_error h₁) (turn_of_error h₂) hcause
        (apart_recover h.dialect h.bindings hz (.inl hapart))
    · have hturn : s₂.turn = Session.turn { s₂ with scanner := s } := turn_congr rfl rfl h₂
      exact .passed (turn_of_quit h₁ (Token.kind_of_isEnd hend)) hturn h.bindings.symm
        (firstToken_ok h₁).2.2.1 hend hpassed
  · -- The first session has nothing left, and the second one is behind the terminator already.
    obtain ⟨t, s₁', h₁, hend, hkeywords', hrest⟩ :=
      firstToken_of_rest_eq_nil hslot₁ hcursor.rest_eq_nil
    have hturn : s₂.turn = Session.turn { s₂ with scanner := { s₂.scanner with last := none } } :=
      turn_congr rfl rfl (firstToken_congr (get_forget hslot₂).symm)
    exact .passed (turn_of_quit h₁ (Token.kind_of_isEnd hend)) hturn h.bindings.symm
      (firstToken_ok h₁).2.2.1 hend ⟨hslot₂, rfl, hkeywords.trans hkeywords'.symm,
        hcursor.nonempty, hrest, hcursor.rest_eq_tail, hcursor.fresh⟩

/-! ## Runs -/

/-- How the run `r₂` on a text with `z` behind it goes on from the run `r₁` on
    the text. -/
inductive Run.GoesOn (d : Dialect) (z : List Char) (r₁ r₂ : Run) : Prop where
  /-- Nothing is read behind the text. -/
  | stops (word : z = [] ∨ r₁.stoppedByWord = true) (verdicts : r₂.verdicts = r₁.verdicts)
    (bindings : r₂.final.bindings = r₁.final.bindings)
  /-- The session `s` behind the terminator is run. -/
  | resumes (front : List Step) (s : Session) (nonempty : z ≠ []) (word : r₁.stoppedByWord = false)
    (front_eq : front.map Step.verdict = r₁.verdicts) (steps : r₂.steps = front ++ s.run.steps)
    (final : r₂.final = s.run.final) (dialect : s.dialect = d)
    (bindings : s.bindings = r₁.final.bindings) (scanner : PassedTo z r₁.final.scanner s.scanner)

theorem Run.GoesOn.after {r₁ r₂ : Run} (h : GoesOn d z r₁ r₂) {step₁ step₂ : Step}
    (hstep : step₂.verdict = step₁.verdict) : GoesOn d z (r₁.after step₁) (r₂.after step₂) := by
  cases h with
  | stops word verdicts bindings =>
    refine .stops word ?_ bindings
    rw [verdicts_after, verdicts_after, hstep, verdicts]
  | resumes front s nonempty word front_eq steps final dialect bindings scanner =>
    refine .resumes (step₂ :: front) s nonempty word ?_ ?_ final dialect bindings scanner
    · rw [List.map_cons, front_eq, verdicts_after, hstep]
    · show step₂ :: r₂.steps = _
      rw [steps]
      rfl

/-- Sessions that are apart make the same run, and then the second one goes on
    behind the terminator. -/
theorem Apart.run (hz : Detached z) (hd : s₁.dialect.GroupsWithin .full) (h : s₁.Apart z s₂) :
    Run.GoesOn s₁.dialect z s₁.run s₂.run := by
  -- Turn by turn, along the first session.
  induction s₁ using run_induction generalizing s₂ with
  | turn s₁ hvalue hrecovery =>
    cases h.turn hd hz with
    | @value o s₁' s₂' left right apart =>
      have hdialect := turn_dialect left
      have hrun := hvalue _ _ left (hdialect ▸ hd) apart
      rw [run_eq s₁, run_eq s₂, left, right]
      rw [hdialect] at hrun
      exact hrun.after rfl
    | @rejected r₁ r₂ s₁' s₂' left right cause apart =>
      have hdialect : s₁'.recover.2.dialect = s₁.dialect := by
        rw [recover_dialect, turn_error_dialect left]
      have hrun := hrecovery _ _ left (hdialect ▸ hd) apart
      rw [run_eq s₁, run_eq s₂, left, right]
      rw [hdialect] at hrun
      exact hrun.after (congrArg Except.error cause.symm)
    | @ended s₁' s₂' t left right bindings last kind word =>
      rw [run_eq s₁, run_eq s₂, left, right]
      refine .stops (word.imp_right fun hword => ?_) rfl bindings
      simp [Run.stoppedByWord, last, kind, hword]
    | @passed s₁' t scanner left right bindings last isEnd passed =>
      -- The first run is over, and all of the second one is still to come.
      have hrun : s₂.run = Session.run { s₂ with scanner } := by rw [run_eq, run_eq, right]
      rw [hrun, run_eq s₁, left]
      refine .resumes [] { s₂ with scanner } passed.cursor.nonempty ?_ rfl rfl rfl h.dialect
        bindings.symm passed
      simp [Run.stoppedByWord, last, isEnd]

/-- Nothing changes the keywords while a text is run. -/
theorem Reads.run_final_keywords {s : Session} (hd : d.Closable) (h : s.Reads d text) :
    s.run.final.scanner.keywords = d.keywords := by
  induction s using run_induction with
  | turn s hvalue hrecovery =>
    rw [run_eq]
    cases hturn : s.turn with
    | ok o s' =>
      cases o with
      | some o => exact hvalue o s' hturn (h.value hturn)
      | none =>
        cases turns_of_eq hturn with
        | ended first quit => exact (h.held first).1
    | error e s' =>
      obtain ⟨r, rfl⟩ := turn_error_of_closable (h.1 ▸ hd) hturn
      exact hrecovery r s' hturn (h.recovery hturn)

/-! ## The text behind the terminator -/

theorem apart_ofText (d : Dialect) (b : Bindings) (x z : List Char) :
    (ofText d b x).Apart z (ofText d b (x ++ z)) :=
  ⟨rfl, rfl, .inl (.inl ⟨rfl, ⟨by simp [ofText, Scanner.ofText], Text.Cursor.tidy_ofText _⟩,
    trivial, trivial⟩)⟩

/-- Cursors that want the same line scan the same. -/
theorem scan_congr {keywords : Keywords} {c c' : Text.Cursor} (h : c.refill = c'.refill) :
    Token.scan keywords c = Token.scan keywords c' := by
  rw [Token.scan, Token.scan, Token.skipBlanks, Token.skipBlanks, h]

section behind
variable {s : Session} {b : Bindings} {y : List Char}

/-- Behind a terminator the session goes on as one on the text that is left. -/
theorem apart_behind (hdialect : s.dialect = d) (hbindings : s.bindings = b)
    (hkeywords : s.scanner.keywords = d.keywords) (hslot : s.scanner.slot = none)
    (hlast : s.scanner.last = none) (hrest : s.scanner.cursor.rest = y) :
    s.Apart [] (ofText d b y) := by
  refine ⟨hdialect.symm, hbindings.symm, .inl (.inl ⟨hkeywords.symm, ⟨?_, ?_⟩, ?_, ?_⟩)⟩
  · rw [hrest, List.append_nil]
    exact Text.Cursor.rest_ofText y
  · exact Text.Cursor.tidy_ofText y
  · rw [hslot]
    trivial
  · rw [hlast]
    trivial

/-- Before a new line it does so to the letter, with the same places. -/
theorem run_behind_newline (hdialect : s.dialect = d) (hbindings : s.bindings = b)
    (hkeywords : s.scanner.keywords = d.keywords) (hslot : s.scanner.slot = none)
    (hlast : s.scanner.last = none) (hrest : s.scanner.cursor.rest = y)
    (hfresh : s.scanner.cursor.Fresh) : s.run = (ofText d b y).run := by
  have hget : s.scanner.get = (ofText d b y).scanner.get := by
    obtain ⟨_, ⟨cursor, keywords, slot, last⟩, _⟩ := s
    cases hslot
    cases hlast
    cases hkeywords
    cases hrest
    simp only [Scanner.get, ofText, Scanner.ofText]
    rw [scan_congr hfresh]
  rw [run_eq, run_eq, turn_congr hdialect hbindings (firstToken_congr hget)]

end behind

/-! ## Isolation -/

/-- A session on two texts with a terminator between them comes to what a
    session on the first text comes to, and then to what a session on the second
    text comes to with the bindings that the first one left. If the terminator
    is a line feed, the steps on the second text are the same with the places of
    the errors. A word that ends the session on the first text ends both. -/
theorem run_append_terminator (hd : d.IsBuiltIn) (b : Bindings) (x y : List Char) {sep : Char}
    (hsep : sep = ';' ∨ sep = '\n') :
    let first := (ofText d b x).run
    let whole := (ofText d b (x ++ sep :: y)).run
    let second := (ofText d first.final.bindings y).run
    first.fault = none ∧ whole.fault = none ∧
      (first.stoppedByWord = false →
        whole.verdicts = first.verdicts ++ second.verdicts ∧
        whole.final.bindings = second.final.bindings ∧
        (sep = '\n' → whole.steps.drop first.steps.length = second.steps)) ∧
      (first.stoppedByWord = true →
        whole.verdicts = first.verdicts ∧ whole.final.bindings = first.final.bindings) := by
  intro first whole second
  have hgroups := hd.groupsWithin
  have hz : Detached (sep :: y) := detached_cons (isTerminator_iff.2 hsep)
  refine ⟨run_fault_eq_none _ hgroups.closable, run_fault_eq_none _ hgroups.closable, ?_⟩
  have hruns : Run.GoesOn d (sep :: y) first whole :=
    (apart_ofText d b x (sep :: y)).run hz hgroups
  cases hruns with
  | stops word verdicts bindings =>
    -- `sep :: y` is not empty, so a word has ended the first run
    have hword : first.stoppedByWord = true := word.resolve_left (List.cons_ne_nil _ _)
    refine ⟨fun h => ?_, fun _ => ⟨verdicts, bindings⟩⟩
    rw [hword] at h
    cases h
  | resumes front s nonempty word front_eq steps final dialect bindings scanner =>
    have hkeywords : s.scanner.keywords = d.keywords :=
      scanner.keywords.trans ((reads_ofText d b x).run_final_keywords hgroups.closable)
    -- The session behind the terminator and one on `y` are apart by nothing at all.
    have hbehind : Run.GoesOn s.dialect [] s.run second :=
      (apart_behind dialect bindings hkeywords scanner.slot scanner.last
        scanner.cursor.rest_eq_tail).run detached_nil (dialect ▸ hgroups)
    refine ⟨fun _ => ?_, fun h => ?_⟩
    · cases hbehind with
      | resumes _ _ nonempty => exact absurd rfl nonempty
      | stops _ verdicts' bindings' =>
        refine ⟨?_, by rw [final, bindings'], fun hnewline => ?_⟩
        · rw [Run.verdicts, steps, List.map_append, front_eq, verdicts']
          rfl
        · -- Behind a line feed the two sessions are on the same line, at its beginning.
          have hlength : first.steps.length = front.length := by
            have hmap := congrArg List.length front_eq
            rw [Run.verdicts, List.length_map, List.length_map] at hmap
            exact hmap.symm
          rw [steps, hlength, List.drop_left]
          exact congrArg Run.steps (run_behind_newline dialect bindings hkeywords scanner.slot
            scanner.last scanner.cursor.rest_eq_tail (scanner.cursor.fresh (by rw [hnewline]; rfl)))
    · rw [word] at h
      cases h

/-- An unfinished statement in front of `;` does not reach into the next one. -/
theorem run_append_terminator_unfinished :
    Dialect.full.IsBuiltIn ∧ (';' = ';' ∨ ';' = '\n') ∧
      let first := (ofText .full .initial "2^(1".toList).run
      let whole := (ofText .full .initial ("2^(1".toList ++ ';' :: "3".toList)).run
      let second := (ofText .full first.final.bindings "3".toList).run
      first.fault = none ∧ whole.fault = none ∧
        (first.stoppedByWord = false →
          whole.verdicts = first.verdicts ++ second.verdicts ∧
          whole.final.bindings = second.final.bindings ∧
          (';' = '\n' → whole.steps.drop first.steps.length = second.steps)) ∧
        (first.stoppedByWord = true →
          whole.verdicts = first.verdicts ∧ whole.final.bindings = first.final.bindings) :=
  ⟨.inl rfl, .inl rfl, run_append_terminator (.inl rfl) .initial _ _ (.inl rfl)⟩

end Session

end Calculator
