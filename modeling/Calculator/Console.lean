import Calculator.Decimal.Significant
import Calculator.Session

/-! # Conversations

    A conversation prompts for a statement, prints its value or an error
    message, and prompts again, until the session is over. Results and prompts
    go to one channel. Error messages and the records of the trace share the
    other, in the order in which they arise; whether the records are shown is
    decided only when that channel is written out.
-/

namespace Calculator.Console

/-- How a conversation is held. -/
structure Settings where
  prompt : String := "> "
  /-- The number of significant digits of a result. -/
  precision : Int := 19
  showPrompt : Bool := true
deriving DecidableEq, Repr

/-- What is written when a statement is wanted. -/
def Settings.promptText (c : Settings) : String := if c.showPrompt then c.prompt else ""

/-- An entry on the second channel. -/
inductive Notice where
  | error (d : Diagnostic)
  | record (r : Record)
deriving DecidableEq

/-- An entry as a line. -/
def Notice.text : Notice → String
  | .error d => "error: " ++ d.text
  | .record r => r.text

/-- Whether an entry is shown. -/
def Notice.isShown (verbose : Bool) : Notice → Bool
  | .error _ => true
  | .record _ => verbose

/-- The second channel as text. -/
def noticesText (verbose : Bool) (notices : List Notice) : String :=
  String.join ((notices.filter (·.isShown verbose)).map (·.text ++ "\n"))

/-- How a conversation ends. -/
inductive Ending where
  /-- The session is over. -/
  | finished
  /-- A result cannot be printed to the precision that is asked for. -/
  | unprintable (precision : Int)
  | fault (f : Fault)
deriving DecidableEq

/-- What was written in a conversation. -/
structure Transcript where
  out : String
  notices : List Notice
  ending : Ending
  /-- The session as it was left. -/
  final : Session

/-- Puts what was written earlier in front. -/
def Transcript.after (out : String) (notices : List Notice) (t : Transcript) : Transcript :=
  { t with out := out ++ t.out, notices := notices ++ t.notices }

/-- Goes on, after a prompt, for at most `limit` statements. -/
def continueWithin (c : Settings) : (limit : Nat) → Session → Transcript
  | 0, s => ⟨"", [], .fault .budgetExhausted, s⟩
  | limit + 1, s =>
    match s.turn with
    | .ok none s => ⟨"", [], .finished, s⟩
    | .ok (some outcome) s =>
      let records := outcome.change.toList.map (Notice.record ∘ Record.changed)
      match resultText? c.precision outcome.value with
      | some text => (continueWithin c limit s).after (text ++ "\n" ++ c.promptText) records
      | none => ⟨"", records, .unprintable c.precision, s⟩
    | .error (.rejected r) s =>
      let (records, s) := s.recover
      (continueWithin c limit s).after c.promptText
        (.record (.failed r.cause.summary) :: .error r.diagnostic :: records.map .record)
    | .error fault s => ⟨"", [], .fault fault, s⟩

/-- Goes on, after a prompt, to the end of the session. -/
def resume (c : Settings) (s : Session) : Transcript :=
  continueWithin c (s.scanner.remaining + 1) s

/-- A whole conversation. -/
def converse (c : Settings) (s : Session) : Transcript :=
  (resume c s).after c.promptText []

end Calculator.Console
