import Calculator.Proofs.Console.Changes
import Calculator.Proofs.Console.Rendering
import Calculator.Proofs.Session.Scanned

/-! # What a trace tells

    The second channel carries the error messages and, if the session is verbose, the
    records of the trace between them (`noticesText_false`, `noticesText_true`,
    `interleaves_lines`).

    The records tell what happened (`Narrates`): of a statement that was carried out,
    the change that it made, with the value in front of it; of a rejected one, that it
    failed and was given up, and how much of the text was discarded for it. So the
    table can be made again from the records alone (`Bindings.History.replay`).
-/

namespace Calculator

/-! ## What becomes of a statement -/

namespace Session

variable {d : Dialect} {text : List Char} {s s' : Session}

/-- The next statement is rejected when the text `scanned` of it has been read and the
    text `left` is left. The session goes on with `s'`, behind the terminator. -/
structure GivesUp (s : Session) (r : Rejection) (scanned left : List Char) (s' : Session) :
    Prop where
  failed : ∃ s₁, s.turn = .error (.rejected r) s₁ ∧ s₁.scanner.cursor.rest = left ∧
    s₁.recover.2 = s'
  starts : s.scanner.StartsAt (scanned ++ left)
  rest : s'.scanner.cursor.rest =
    if scanned.any isTerminator then left else (left.dropWhile (!isTerminator ·)).drop 1
  bindings : s'.bindings = s.bindings

/-- What is reported of a statement that is given up. -/
theorem givesUp_of_turn (hreads : s.Reads d text) (hd : d.IsBuiltIn) {r : Rejection}
    (h : s.turn = .error (.rejected r) s') :
    ∃ scanned left, s.GivesUp r scanned left s'.recover.2 ∧
      s'.recover.1 = recoveryRecords scanned left := by
  obtain ⟨scanned, hstarts, hscanned⟩ := exists_scanned_of_rejected hreads hd h
  refine ⟨scanned, s'.scanner.cursor.rest, ⟨⟨s', h, rfl, rfl⟩, hstarts, ?_, ?_⟩,
    recover_fst_of_scanned hscanned⟩
  · rw [(recover_scanner s').2, hscanned]
    rfl
  · rw [recover_bindings, bindings_of_turn_error h]

end Session

namespace Console

open Session

/-! ## Lines of the second channel -/

/-- The elements of `xs` and those of `ys`, each in their order, make up `zs`. -/
inductive Interleaves {α : Type} : List α → List α → List α → Prop where
  | nil : Interleaves [] [] []
  | left {x : α} {xs ys zs : List α} (h : Interleaves xs ys zs) :
    Interleaves (x :: xs) ys (x :: zs)
  | right {y : α} {xs ys zs : List α} (h : Interleaves xs ys zs) :
    Interleaves xs (y :: ys) (y :: zs)

/-- The line of an error message. -/
def Notice.errorLine? : Notice → Option String
  | .error d => some ("error: " ++ d.text ++ "\n")
  | .record _ => none

/-- The line of a record. -/
def Notice.recordLine? : Notice → Option String
  | .error _ => none
  | .record r => some ("DEBUG " ++ r.origin ++ ": " ++ r.message ++ "\n")

/-- The line of an entry. -/
def Notice.line (n : Notice) : String := n.text ++ "\n"

/-- The lines are those of the error messages and those of the records. -/
theorem interleaves_lines (ns : List Notice) :
    Interleaves (ns.filterMap Notice.errorLine?) (ns.filterMap Notice.recordLine?)
      (ns.map Notice.line) := by
  induction ns with
  | nil => exact .nil
  | cons n ns ih =>
    cases n with
    | error d => exact .left ih
    | record r => exact .right ih

/-- A session that is not verbose shows the error messages. -/
theorem noticesText_false (ns : List Notice) :
    noticesText false ns = String.join (ns.filterMap Notice.errorLine?) := by
  unfold noticesText
  congr 1
  induction ns with
  | nil => rfl
  | cons n ns ih =>
    cases n with
    | error d => exact congrArg (("error: " ++ d.text ++ "\n") :: ·) ih
    | record r => exact ih

/-- A verbose session shows all entries. -/
theorem noticesText_true (ns : List Notice) :
    noticesText true ns = String.join (ns.map Notice.line) := by
  have hshown : ns.filter (·.isShown true) = ns := by
    rw [List.filter_eq_self]
    intro n _
    cases n <;> rfl
  unfold noticesText
  rw [hshown]
  rfl

/-! ## Trace and conversation -/

/-- What is reported of a statement that is carried out. -/
def changeNotices (changes : List Change) : List Notice := changes.map (.record ∘ .changed)

/-- What is reported of a statement that is given up when the text `scanned` of it has
    been read and the text `left` is left. -/
def rejectionNotices (r : Rejection) (scanned left : List Char) : List Notice :=
  .record (.failed r.cause.summary) :: .error r.diagnostic ::
    (recoveryRecords scanned left).map .record

/-- A conversation that goes on from a session, what is reported of it, and how and
    where it ends. -/
inductive Narrates (c : Settings) : Session → List Notice → Ending → Session → Prop where
  /-- The session is over. -/
  | finished {s s' : Session} (turn : s.turn = .ok none s') : Narrates c s [] .finished s'
  /-- A value is printed. -/
  | printed {s s' s'' : Session} {a : Action} {changes : List Change} {ns : List Notice}
      {e : Ending} (done : s.CarriesOut a changes s') (prints : c.Prints (.value a.value))
      (rest : Narrates c s' ns e s'') :
    Narrates c s (changeNotices changes ++ ns) e s''
  /-- A value cannot be printed, and the conversation stops. -/
  | unprintable {s s' : Session} {a : Action} {changes : List Change}
      (done : s.CarriesOut a changes s') (prints : ¬ c.Prints (.value a.value)) :
    Narrates c s (changeNotices changes) (.unprintable c.precision) s'
  /-- A statement is rejected and given up. -/
  | rejected {s s' s'' : Session} {r : Rejection} {scanned left : List Char}
      {ns : List Notice} {e : Ending} (given : s.GivesUp r scanned left s')
      (rest : Narrates c s' ns e s'') :
    Narrates c s (rejectionNotices r scanned left ++ ns) e s''

variable {d : Dialect} {text : List Char} {s s' : Session}

/-- What a conversation reports is what happened in it. -/
theorem narrates_resume (c : Settings) (hd : d.IsBuiltIn) (h : s.Reads d text) :
    Narrates c s (resume c s).notices (resume c s).ending (resume c s).final := by
  induction s using run_induction with
  | turn s hvalue hrecovery =>
    rw [resume_eq]
    cases hturn : s.turn with
    | ok o s' =>
      cases o with
      | none => exact .finished hturn
      | some o =>
        obtain ⟨a, ha, hdone⟩ := carriesOut_of_turn hturn
        by_cases hprints : c.Prints (.value o.value)
        · have hrest := hvalue o s' hturn (h.value hturn)
          dsimp only
          rw [resultText?_of_prints hprints]
          exact .printed hdone (ha ▸ hprints) hrest
        · dsimp only
          rw [resultText?_of_not_prints hprints]
          exact .unprintable hdone (ha ▸ hprints)
    | error e s' =>
      -- every bracket of a built-in dialect can be closed
      have hclosable : s.dialect.Closable := h.1.symm ▸ hd.groupsWithin.closable
      obtain ⟨r, rfl⟩ := turn_error_of_closable hclosable hturn
      obtain ⟨scanned, left, hgiven, hrecords⟩ := givesUp_of_turn h hd hturn
      have hrest := hrecovery r s' hturn (h.recovery hturn)
      dsimp only
      rw [hrecords]
      exact .rejected hgiven hrest

/-- The second operator has been read when it turns out to be misplaced, and three
    characters are left in front of the terminator. -/
example :
    (resume {} (.ofText .full .initial "1 + * 2 ;\n".toList)).notices.filterMap
      Notice.recordLine? =
    ["DEBUG deskcalc.repl: Statement failed: Factor expected\n",
     "DEBUG deskcalc.evaluator: Recovering from error, discarding the rest of the statement\n",
     "DEBUG deskcalc.tokenizer: Skipped 3 characters up to PRINT\n"] := by decide +kernel

end Console

end Calculator
