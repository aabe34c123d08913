import Calculator.Console
import Calculator.Proofs.Guarded
import Calculator.Proofs.Session.Sentences

/-! # How conversations end

    A conversation goes on until the session is over, unless a result cannot be
    printed or a group was opened that nothing closes (`ends_resume`). Nothing
    else stops it: the readers do not fail by themselves, and no operation on
    numbers breaks down (`converse_safe`).
-/

namespace Calculator

namespace Session

/-! ## Going through a session -/

theorem Reaches.dialect {s s₁ : Session} (h : s.Reaches s₁) : s₁.dialect = s.dialect := by
  induction h with
  | refl => rfl
  | value _ turn ih => exact (turn_dialect turn).trans ih
  | recovery _ turn ih =>
    rw [recover_dialect, turn_error_dialect turn]
    exact ih

end Session

namespace Console

open Session

/-! ## Conversations without a limit -/

variable {c : Settings} {s s' : Session}

/-- A larger limit changes nothing. -/
theorem continueWithin_agree {n m : Nat} (hn : s.scanner.remaining < n)
    (hm : s.scanner.remaining < m) : continueWithin c n s = continueWithin c m s := by
  induction n generalizing m s with
  | zero => omega
  | succ n ih =>
    obtain ⟨m, rfl⟩ : ∃ k, m = k + 1 := ⟨m - 1, by omega⟩
    unfold continueWithin
    split
    · rfl
    · next o s' hturn =>
      have hlt := turn_remaining_lt hturn
      rw [ih (m := m) (by omega) (by omega)]
    · next r s' hturn =>
      have hlt := recover_remaining_lt hturn
      have hrest := ih (m := m) (s := s'.recover.2) (by omega) (by omega)
      exact congrArg (Transcript.after c.promptText _) hrest
    · rfl

/-- A conversation is a turn and the conversation after it. -/
theorem resume_eq (c : Settings) (s : Session) :
    resume c s =
      match s.turn with
      | .ok none s' => ⟨"", [], .finished, s'⟩
      | .ok (some o) s' =>
        let records := o.change.toList.map (Notice.record ∘ Record.changed)
        match resultText? c.precision o.value with
        | some text => (resume c s').after (text ++ "\n" ++ c.promptText) records
        | none => ⟨"", records, .unprintable c.precision, s'⟩
      | .error (.rejected r) s' =>
        (resume c s'.recover.2).after c.promptText
          (.record (.failed r.cause.summary) :: .error r.diagnostic ::
            s'.recover.1.map .record)
      | .error fault s' => ⟨"", [], .fault fault, s'⟩ := by
  have hresume : resume c s = continueWithin c (s.scanner.remaining + 1) s := rfl
  rw [hresume, continueWithin]
  cases hturn : s.turn with
  | ok o s' =>
    cases o with
    | none => rfl
    | some o =>
      have hlimit : continueWithin c s.scanner.remaining s' = resume c s' :=
        continueWithin_agree (turn_remaining_lt hturn) (Nat.lt_succ_self _)
      dsimp only
      cases resultText? c.precision o.value with
      | none => rfl
      | some text => exact congrArg (Transcript.after _ _) hlimit
  | error e s' =>
    cases e with
    | rejected r =>
      have hlimit : continueWithin c s.scanner.remaining s'.recover.2 = resume c s'.recover.2 :=
        continueWithin_agree (recover_remaining_lt hturn) (Nat.lt_succ_self _)
      dsimp only
      rw [hlimit]
    | unclosable _ | slotOccupied _ _ | budgetExhausted => rfl

/-! ## Endings -/

/-- How a conversation that begins in `s` can end, and where. -/
inductive Ends (c : Settings) (s : Session) : Ending → Session → Prop where
  /-- A word ends the session, or the text has come to its end. -/
  | finished {s₁ s' : Session} (reached : s.Reaches s₁) (turn : s₁.turn = .ok none s') :
    Ends c s .finished s'
  /-- A statement was just carried out, and the precision is negative. -/
  | unprintable {s₁ s' : Session} {o : Outcome} (reached : s.Reaches s₁)
      (turn : s₁.turn = .ok (some o) s') (precision : c.precision < 0) :
    Ends c s (.unprintable c.precision) s'
  /-- The expression in a group was read, and nothing closes the group. -/
  | unclosed {s₁ s' : Session} {k : Token.Kind} {t : Token} {scanner : Scanner}
      (reached : s.Reaches s₁) (turn : s₁.turn = .error (.unclosable k) s')
      (first : firstToken s₁.scanner = .ok t scanner)
      (unclosed : Unclosed s.dialect s₁.bindings (scanner.hold t) k s'.scanner) :
    Ends c s (.fault (.unclosable k)) s'

/-- A conversation that begins later ends in the same way. -/
theorem Ends.of_reaches {e : Ending} {s₁ s' : Session} (h : s.Reaches s₁) (hends : Ends c s₁ e s') :
    Ends c s e s' := by
  cases hends with
  | finished reached turn => exact .finished (h.trans reached) turn
  | unprintable reached turn precision => exact .unprintable (h.trans reached) turn precision
  | unclosed reached turn first unclosed =>
    rw [h.dialect] at unclosed
    exact .unclosed (h.trans reached) turn first unclosed

/-- A result is not printed only if the precision is negative. -/
theorem precision_of_resultText? {p : Int} {x : Float} (hp : p ≤ maxPrecision)
    (h : resultText? p x = none) : p < 0 := by
  unfold resultText? at h
  split at h
  · cases h
  · next hrange =>
    simp only [Bool.and_eq_true, decide_eq_true_eq] at hrange
    omega

theorem ends_resume (c : Settings) (hc : c.precision ≤ maxPrecision) (s : Session) :
    Ends c s (resume c s).ending (resume c s).final := by
  induction s using run_induction with
  | turn s hvalue hrecovery =>
    rw [resume_eq]
    cases hturn : s.turn with
    | ok o s' =>
      cases o with
      | none => exact .finished (.refl s) hturn
      | some o =>
        dsimp only
        cases htext : resultText? c.precision o.value with
        | some text =>
          -- the value is printed, and the rest of the conversation decides
          exact (hvalue o s' hturn).of_reaches (.value (.refl s) hturn)
        | none => exact .unprintable (.refl s) hturn (precision_of_resultText? hc htext)
    | error e s' =>
      -- A rejection is recovered from, and the conversation goes on.
      obtain ⟨r, rfl⟩ | ⟨k, t, scanner, rfl, first, hunclosed⟩ := turn_error hturn
      · exact (hrecovery r s' hturn).of_reaches (.recovery (.refl s) hturn)
      · exact .unclosed (.refl s) hturn first hunclosed

/-! ## Safety -/

/-- From every state, with the slot full or empty, expressions and statements
    that are read leave the first token behind them in the slot, and they are
    stopped only by a rejection or by a group that nothing closes. A conversation
    ends as foreseen. No operation on numbers breaks down. -/
theorem converse_safe (c : Settings) (s : Session) (hc : c.precision ≤ maxPrecision) :
    (∀ v r, expression s.dialect s.bindings s.scanner = .ok v r →
      ∃ T : Tree s.dialect .expression, T.value s.bindings = .ok v ∧
        s.scanner.Peeked T.yield r) ∧
    (∀ e r, expression s.dialect s.bindings s.scanner = .error e r →
      e.Foreseen s.dialect s.bindings s.scanner r) ∧
    (∀ o s', s.statement = .ok o s' →
      ∃ ts a, Sentence s.dialect s.bindings ts a ∧ o.value = a.value ∧
        s.scanner.Peeked ts s'.scanner) ∧
    (∀ e s', s.statement = .error e s' →
      e.Foreseen s.dialect s.bindings s.scanner s'.scanner) ∧
    Ends c s (converse c s).ending (converse c s).final ∧
    Guarded.NeverBreaksDown :=
  ⟨fun _ _ => expression_ok, fun _ _ => expression_error, fun _ _ => statement_ok,
    fun _ _ => statement_error, ends_resume c hc s, Guarded.neverBreaksDown⟩

/-- Parentheses that a comma would close: the number behind the opening one is
    read, and the conversation stops there. -/
theorem converse_safe_comma :
    let c : Settings := {}
    let d : Dialect := { Dialect.full with groupings := [(.openParen, .comma)] }
    let s := Session.ofText d .initial "(1".toList
    c.precision ≤ maxPrecision ∧ (converse c s).ending = .fault (.unclosable .comma) ∧
      Ends c s (.fault (.unclosable .comma)) (converse c s).final := by
  intro c d s
  have hc : c.precision ≤ maxPrecision := by decide
  have hending : (converse c s).ending = .fault (.unclosable .comma) := by decide +kernel
  refine ⟨hc, hending, ?_⟩
  rw [← hending]
  exact (converse_safe c s hc).2.2.2.2.1

end Console

end Calculator
