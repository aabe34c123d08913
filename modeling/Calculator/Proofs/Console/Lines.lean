import Calculator.Proofs.Console.Rendering
import Calculator.Proofs.Session.Lines

/-! # Conversations line by line

    A conversation answers a statement before it asks for a line behind that of
    the statement. So what it says on some whole lines does not depend on what
    comes behind them: a conversation on more text is the one on the lines,
    followed by the one on the rest (`answers_line_by_line`).
-/

namespace Calculator

open Text (IsLine WholeLines)

namespace Console

open Session

variable {c : Settings} {text z : List Char} {s₁ s₂ : Session} {first whole : Transcript}

/-! ## Going on with more text -/

theorem Transcript.after_after (out out' : String) (notices notices' : List Notice)
    (t : Transcript) : (t.after out' notices').after out notices =
      t.after (out ++ out') (notices ++ notices') := by
  simp [Transcript.after, String.append_assoc]

/-- `whole` goes on from `first` as soon as the text `z` is supplied, or says the same
    if `first` does not wait for more text. -/
structure Transcript.GoesOn (c : Settings) (z : List Char) (first whole : Transcript) : Prop where
  waits : first.final.isWaiting = true →
    whole = (resume c (first.final.resume z)).after first.out first.notices
  stops : first.final.isWaiting = false →
    whole.out = first.out ∧ whole.notices = first.notices ∧ whole.ending = first.ending

/-- The same is said in front of both. -/
theorem Transcript.GoesOn.after (h : first.GoesOn c z whole) (out : String)
    (notices : List Notice) : (first.after out notices).GoesOn c z (whole.after out notices) where
  waits hwaiting := by
    rw [h.waits hwaiting, after_after]
    rfl
  stops hstops := by
    obtain ⟨hout, hnotices, hending⟩ := h.stops hstops
    exact ⟨congrArg (out ++ ·) hout, congrArg (notices ++ ·) hnotices, hending⟩

/-- With more text behind the lines a conversation goes on from the one on the
    lines. -/
theorem converse_longer (h : s₁.Longer z s₂) (hstands : s₁.scanner.Stands text)
    (hd : s₁.dialect.GroupsWithin .full) (htext : WholeLines text) :
    (converse c s₁).GoesOn c z (converse c s₂) := by
  -- Turn by turn, along the session on the lines.
  induction s₁ using run_induction generalizing s₂ with
  | turn s₁ hvalue hrecovery =>
    cases h.turn hstands hd htext with
    | @value o s₁' s₂' left right longer =>
      by_cases hprints : c.Prints (.value o.value)
      · rw [converse_of_value left hprints, converse_of_value right hprints]
        exact (hvalue o s₁' left longer (stands_of_value hstands hd left)
          (turn_dialect left ▸ hd)).after _ _
      · rw [converse_of_unprintable left hprints, converse_of_unprintable right hprints]
        refine ⟨fun hwaiting => ?_, fun _ => ⟨rfl, rfl, rfl⟩⟩
        exact absurd hwaiting (by simp [longer.isWaiting])
    | @rejected r s₁' s₂' left right records longer =>
      rw [converse_of_rejected left, converse_of_rejected right, records]
      refine (hrecovery r s₁' left longer (stands_of_recovery (in_of_rejected hstands hd left))
        ?_).after _ _
      rw [recover_dialect, turn_error_dialect left]
      exact hd
    | ended left right longer =>
      rw [converse_of_finished c left, converse_of_finished c right]
      refine ⟨fun hwaiting => ?_, fun _ => ⟨rfl, rfl, rfl⟩⟩
      exact absurd hwaiting (by simp [longer.isWaiting])
    | @waits s₁' left waiting right =>
      have hresume : resume c s₂ = resume c (s₁'.resume z) := by
        rw [resume_eq, resume_eq, right]
      rw [converse_of_finished c left]
      refine ⟨fun _ => ?_, fun hstops => ?_⟩
      · rw [converse, hresume]
      · rw [waiting] at hstops
        cases hstops

/-! ## Texts -/

/-- In a text of whole lines, a statement that has a value or is rejected leaves the
    session on its line, with nothing behind the line asked for, and so does the
    recovery. Whatever text comes behind the lines, the conversation says the same
    on them: it is over with them, or goes on when the rest is supplied. -/
theorem answers_line_by_line {d : Dialect} (hd : d.IsBuiltIn) (b : Bindings)
    (htext : WholeLines text) :
    (∀ s s', (ofText d b text).Reaches s →
      (∀ o, s.turn = .ok (some o) s' →
        ∃ line after, s.BeginsOn text line after ∧ s'.scanner.cursor.StaysOn line after) ∧
      (∀ e, s.turn = .error e s' →
        ∃ line after, s.BeginsOn text line after ∧ s'.scanner.cursor.StaysOn line after ∧
          s'.recover.2.scanner.cursor.StaysOn line after)) ∧
    ∀ (c : Settings) (z : List Char),
      let first := converse c (ofText d b text)
      let whole := converse c (ofText d b (text ++ z))
      (first.final.isWaiting = true →
        whole = (resume c (first.final.resume z)).after first.out first.notices) ∧
      (first.final.isWaiting = false →
        whole.out = first.out ∧ whole.notices = first.notices ∧ whole.ending = first.ending) := by
  refine ⟨fun s s' hs => ?_, fun c z => ?_⟩
  · obtain ⟨hdialect, hstands⟩ := hs.stands (stands_ofText d b text) hd.groupsWithin
    have hkept := turn_kept hstands (hdialect ▸ hd.groupsWithin) htext
    refine ⟨fun o hturn => ?_, fun e hturn => ?_⟩ <;> rw [hturn] at hkept <;>
      obtain ⟨line, after, hbegins, hline⟩ := hkept
    · exact ⟨line, after, hbegins, hline.stays⟩
    · exact ⟨line, after, hbegins, hline.stays, hline.recover⟩
  · have hgoesOn :
        (converse c (ofText d b text)).GoesOn c z (converse c (ofText d b (text ++ z))) :=
      converse_longer (longer_ofText htext d b z) (stands_ofText d b text) hd.groupsWithin htext
    exact ⟨hgoesOn.waits, hgoesOn.stops⟩

/-- The line ends before the divisor: the statement is given up there, and the next
    line is not asked for. -/
theorem answers_line_by_line_unfinished :
    let s := ofText .full .initial "8 / (1 -\n".toList
    let first := converse {} s
    Dialect.full.IsBuiltIn ∧ WholeLines "8 / (1 -\n".toList ∧
      (∃ r s' line after, s.turn = .error (.rejected r) s' ∧
        s.BeginsOn "8 / (1 -\n".toList line after ∧ s'.scanner.cursor.StaysOn line after ∧
        s'.recover.2.scanner.cursor.StaysOn line after) ∧
      first.final.isWaiting = true ∧
      converse {} (ofText .full .initial ("8 / (1 -\n".toList ++ "7)\n".toList)) =
        (resume {} (first.final.resume "7)\n".toList)).after first.out first.notices := by
  intro s first
  have htext : WholeLines "8 / (1 -\n".toList := .inr (by decide)
  have hwaiting : first.final.isWaiting = true := by decide +kernel
  have hlines := answers_line_by_line (d := .full) (.inl rfl) .initial htext
  refine ⟨.inl rfl, htext, ?_, hwaiting, (hlines.2 {} "7)\n".toList).1 hwaiting⟩
  have hsteps : s.run.steps.take 1 =
      [.rejected ⟨.missingFactor, some ⟨"8 / (1 -\n".toList, 8⟩⟩] := by decide +kernel
  rw [run_eq] at hsteps
  cases hturn : s.turn with
  | ok o s' =>
    rw [hturn] at hsteps
    cases o <;> cases hsteps
  | error e s' =>
    rw [hturn] at hsteps
    cases e with
    | rejected r =>
      obtain ⟨line, after, hbegins, hstays, hrecovery⟩ :=
        (hlines.1 s s' (.refl _)).2 (.rejected r) hturn
      exact ⟨r, s', line, after, rfl, hbegins, hstays, hrecovery⟩
    | unclosable | slotOccupied | budgetExhausted => cases hsteps

end Console

end Calculator
