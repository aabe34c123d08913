import Calculator.Proofs.Console.Endings
import Calculator.Proofs.Session.Progress

/-! # Conversations come to an end

    `Converses` is a conversation as a loop without a limit. It follows the
    rounds of the session up to a turn that stops it or a value that cannot be
    printed, so it is over after no more rounds than the text has characters
    (`converse_progresses`).
-/

namespace Calculator

/-- Where the end of the session opens no group, what opens one depends on the
    kind of a token alone. -/
theorem Dialect.closing?_eq_lookup {d : Dialect} (hd : d.groupings.lookup .quit = none)
    (t : Token) : d.closing? t = d.groupings.lookup t.kind := by
  unfold closing?
  split
  · next hend =>
    simp only [Token.isEnd, Bool.and_eq_true, decide_eq_true_eq] at hend
    rw [hend.1, hd]
  · rfl

namespace Console

open Session

variable {c : Settings} {s : Session} {rounds : List Round} {t : Transcript}

/-! ## Conversations as a loop -/

/-- A conversation that goes on after a prompt, with the rounds whose value is
    printed or whose error is reported. -/
inductive Converses (c : Settings) : Session → List Round → Transcript → Prop where
  | finished {s s' : Session} (turn : s.turn = .ok none s') :
    Converses c s [] ⟨"", [], .finished, s'⟩
  | printed {s s' : Session} {o : Outcome} {text : String} {rounds : List Round} {t : Transcript}
    (turn : s.turn = .ok (some o) s') (printable : resultText? c.precision o.value = some text)
    (rest : Converses c s' rounds t) :
    Converses c s (⟨.value o.value, s'⟩ :: rounds)
      (t.after (text ++ "\n" ++ c.promptText)
        (o.change.toList.map (Notice.record ∘ Record.changed)))
  | unprintable {s s' : Session} {o : Outcome} (turn : s.turn = .ok (some o) s')
    (unprintable : resultText? c.precision o.value = none) :
    Converses c s []
      ⟨"", o.change.toList.map (Notice.record ∘ Record.changed), .unprintable c.precision, s'⟩
  | reported {s s' : Session} {r : Rejection} {rounds : List Round} {t : Transcript}
    (turn : s.turn = .error (.rejected r) s') (rest : Converses c s'.recover.2 rounds t) :
    Converses c s (⟨.rejected r, s'⟩ :: rounds)
      (t.after c.promptText
        (.record (.failed r.cause.summary) :: .error r.diagnostic ::
          s'.recover.1.map .record))
  | unclosed {s s' : Session} {k : Token.Kind} (turn : s.turn = .error (.unclosable k) s') :
    Converses c s [] ⟨"", [], .fault (.unclosable k), s'⟩

/-- Every conversation ends. -/
theorem converses_resume (c : Settings) (s : Session) :
    ∃ rounds, Converses c s rounds (resume c s) := by
  induction s using round_induction with
  | round s ih =>
    rw [resume_eq]
    cases hturn : s.turn with
    | ok o s' =>
      cases o with
      | none => exact ⟨[], .finished hturn⟩
      | some o =>
        dsimp only
        cases htext : resultText? c.precision o.value with
        | none => exact ⟨[], .unprintable hturn htext⟩
        | some text =>
          obtain ⟨rounds, hrest⟩ := ih _ (.value hturn)
          exact ⟨_, .printed hturn htext hrest⟩
    | error e s' =>
      obtain ⟨r, rfl⟩ | ⟨k, t, scanner, rfl, -⟩ := turn_error hturn
      · obtain ⟨rounds, hrest⟩ := ih _ (.rejected hturn)
        exact ⟨_, .reported hturn hrest⟩
      · exact ⟨[], .unclosed hturn⟩

/-- The rounds of a conversation are rounds of the session. -/
theorem Converses.plays (h : Converses c s rounds t) : ∃ s₁, s.Plays rounds s₁ := by
  induction h with
  | @finished s | @unprintable s | @unclosed s => exact ⟨s, rfl⟩
  | printed turn _ _ ih =>
    obtain ⟨s₁, hplays⟩ := ih
    exact ⟨s₁, .value turn, hplays⟩
  | reported turn _ ih =>
    obtain ⟨s₁, hplays⟩ := ih
    exact ⟨s₁, .rejected turn, hplays⟩

/-! ## Progress -/

/-- On every text, with any names declared before, the loop that yields values and
    errors and the one that prints them come to an end, and no matter how far they
    have come, there were no more rounds than the text has characters. For each
    round takes at least one character from the text that is left, where a token
    that was put back is left to be read. -/
theorem converse_progresses {d : Dialect} (hd : d.groupings.lookup .quit = none) (b : Bindings)
    (text : List Char) (c : Settings) :
    let s := Session.ofText d b text
    (∀ t, d.closing? t = d.groupings.lookup t.kind) ∧
    (∀ rounds s₁, s.Plays rounds s₁ →
      rounds.length ≤ text.length ∧
      ∀ r, s₁.Makes r → ∃ taken, taken ≠ [] ∧
        s₁.scanner.unconsumed = taken ++ r.next.scanner.unconsumed) ∧
    (∃ rounds s₁, s.Plays rounds s₁ ∧ s₁.Stops s.run.fault s.run.final ∧
      s.run.steps = rounds.map Round.step) ∧
    (∃ rounds s₁ t, Converses c s rounds t ∧ s.Plays rounds s₁ ∧
      converse c s = t.after c.promptText []) := by
  intro s
  have hspelled : s.scanner.Spelled := spelled_ofText d b text
  have htext : s.scanner.unconsumed = text := unconsumed_ofText d b text
  refine ⟨Dialect.closing?_eq_lookup hd, fun rounds s₁ hplays => ⟨?_, fun r hr => ?_⟩, s.run_plays,
    ?_⟩
  · have hle := hplays.length_le hspelled
    rw [htext] at hle
    exact Nat.le_of_add_right_le hle
  · exact (hr.takes (hplays.spelled hspelled)).2
  · obtain ⟨rounds, hconverses⟩ := converses_resume c s
    obtain ⟨s₁, hplays⟩ := hconverses.plays
    exact ⟨rounds, s₁, _, hconverses, hplays, rfl⟩

/-- In `1 2` the second number is put back behind the first statement, and still
    there are two rounds only. -/
theorem converse_progresses_putBack :
    let s := Session.ofText .full .initial "1 2".toList
    Dialect.full.groupings.lookup .quit = none ∧
      (∀ rounds s₁, s.Plays rounds s₁ → rounds.length ≤ 3) ∧
      (∃ rounds s₁, s.Plays rounds s₁ ∧ s₁.Stops none s.run.final ∧
        rounds.map Round.step = [.value 1, .value 2]) ∧
      ∃ rounds s₁ t, Converses {} s rounds t ∧ s.Plays rounds s₁ ∧
        converse {} s = t.after "> " [] := by
  intro s
  have hd : Dialect.full.groupings.lookup .quit = none := rfl
  have hsteps : s.run.steps = [.value 1, .value 2] := by decide +kernel
  have hfault : s.run.fault = none := by decide +kernel
  obtain ⟨-, hrounds, ⟨rounds, s₁, hplays, hstops, hrun⟩, hconverses⟩ :=
    converse_progresses hd .initial "1 2".toList {}
  refine ⟨hd, fun rounds s₁ h => (hrounds rounds s₁ h).1, ⟨rounds, s₁, hplays, ?_, ?_⟩,
    hconverses⟩
  · exact hfault ▸ hstops
  · rw [← hrun, hsteps]

end Console

end Calculator
