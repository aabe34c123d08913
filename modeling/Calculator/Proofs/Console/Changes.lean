import Calculator.Proofs.Console.Endings
import Calculator.Proofs.Session.Effects

/-! # What a conversation does to the bindings

    A conversation makes the changes of the statements that it carries out, in their
    order, also of the last one if its value cannot be printed (`Console.Carries`).
    These are the changes that its trace reports (`Console.carries_resume`).
-/

namespace Calculator

open Bindings

namespace Console

/-! ## Statements that are carried out -/

/-- The changes that the statements of a conversation make, which goes on from `s`
    and is left in `s'`. A statement that is not carried out makes none. -/
inductive Carries (c : Settings) : Session → List Change → Session → Prop where
  /-- The session is over. -/
  | finished {s s' : Session} (turn : s.turn = .ok none s')
      (unchanged : s'.bindings = s.bindings) : Carries c s [] s'
  /-- A statement is carried out, and its value is printed. -/
  | printed {s s' s'' : Session} {a : Action} {changes log : List Change}
      (done : s.CarriesOut a changes s') (prints : (resultText? c.precision a.value).isSome)
      (rest : Carries c s' log s'') : Carries c s (changes ++ log) s''
  /-- A statement is carried out before its value turns out not to be printable. -/
  | unprintable {s s' : Session} {a : Action} {changes : List Change}
      (done : s.CarriesOut a changes s') (prints : resultText? c.precision a.value = none) :
    Carries c s changes s'
  /-- A statement is rejected and given up. -/
  | rejected {s s' s'' : Session} {r : Rejection} {log : List Change}
      (turn : s.turn = .error (.rejected r) s')
      (unchanged : s'.recover.2.bindings = s.bindings)
      (rest : Carries c s'.recover.2 log s'') : Carries c s log s''
  /-- Something else stops the conversation. -/
  | stopped {s s' : Session} {e : Fault} (turn : s.turn = .error e s')
      (other : ∀ r, e ≠ .rejected r) (unchanged : s'.bindings = s.bindings) : Carries c s [] s'

theorem Carries.history {c : Settings} {s s' : Session} {log : List Change}
    (h : Carries c s log s') : History s.bindings log s'.bindings := by
  induction h with
  | finished _ unchanged | stopped _ _ unchanged =>
    rw [unchanged]
    exact .nil _
  | printed done _ _ ih => exact done.performs.history.trans ih
  | unprintable done _ => exact done.performs.history
  | rejected _ unchanged _ ih =>
    rw [unchanged] at ih
    exact ih

/-! ## What a trace reports of it -/

/-- The change that an entry on the second channel reports. -/
def Notice.change? : Notice → Option Change
  | .record (.changed change) => some change
  | _ => none

/-- The changes that a transcript reports. -/
def Transcript.changes (t : Transcript) : List Change := t.notices.filterMap Notice.change?

theorem Transcript.changes_after (out : String) (notices : List Notice) (t : Transcript) :
    (t.after out notices).changes = notices.filterMap Notice.change? ++ t.changes :=
  List.filterMap_append

theorem changes_of_outcome (o : Session.Outcome) :
    (o.change.toList.map (Notice.record ∘ Record.changed)).filterMap Notice.change? =
      o.change.toList := by
  cases o.change <;> rfl

/-- A rejected statement that is given up reports no change. -/
theorem changes_of_rejection (r : Rejection) (s : Session) :
    (.record (.failed r.cause.summary) :: .error r.diagnostic ::
      s.recover.1.map .record : List Notice).filterMap Notice.change? = [] := by
  unfold Session.recover
  split <;> rfl

/-- The changes that a conversation reports are those that its statements make. -/
theorem carries_resume (c : Settings) (s : Session) :
    Carries c s (resume c s).changes (resume c s).final := by
  induction s using Session.run_induction with
  | turn s hvalue hrecovery =>
    rw [resume_eq]
    cases hturn : s.turn with
    | ok o s' =>
      cases o with
      | none => exact .finished hturn (Session.bindings_of_turn_none hturn)
      | some o =>
        obtain ⟨a, ha, hdone⟩ := Session.carriesOut_of_turn hturn
        dsimp only
        rw [← ha]
        cases htext : resultText? c.precision a.value with
        | some text =>
          dsimp only
          rw [Transcript.changes_after, changes_of_outcome]
          exact .printed hdone (by rw [htext]; rfl) (hvalue o s' hturn)
        | none =>
          show Carries c s (List.filterMap Notice.change? _) s'
          rw [changes_of_outcome]
          exact .unprintable hdone htext
    | error e s' =>
      have hbindings := Session.bindings_of_turn_error hturn
      cases e with
      | rejected r =>
        have hrecovered : s'.recover.2.bindings = s.bindings := by
          rw [Session.recover_bindings, hbindings]
        dsimp only
        rw [Transcript.changes_after, changes_of_rejection]
        exact .rejected hturn hrecovered (hrecovery r s' hturn)
      | unclosable _ | slotOccupied _ _ | budgetExhausted =>
        refine .stopped hturn ?_ hbindings
        rintro r ⟨⟩

end Console

end Calculator
