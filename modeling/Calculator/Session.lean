import Calculator.Expression
import Calculator.Trace

/-! # Sessions

    A session reads statements from a text and keeps the bindings:

        statement ::= "let" name "=" expression | "const" name "=" expression
                    | "set" name "=" expression | expression

    A statement is first read and evaluated, against the bindings as they are,
    to an `Action`, and only then is the action carried out. A statement that
    is rejected is given up through its terminator, and the session goes on
    with the next one.
-/

namespace Calculator

/-- What a statement asks for once its expression has a value. -/
inductive Action where
  | print (value : Float)
  | declare (name : String) (value : Float) (constant : Bool)
  | assign (name : String) (value : Float)
deriving DecidableEq

/-- The value of the statement, which is printed in any case. -/
def Action.value : Action → Float
  | .print v => v
  | .declare _ v _ => v
  | .assign _ v => v

/-- The change that an action makes; printing makes none. -/
def Bindings.change? (b : Bindings) : Action → Except Cause (Option Change)
  | .print _ => .ok none
  | .declare name value constant => some <$> b.declare name value constant
  | .assign name value => some <$> b.assign name value

open Reading in
/-- Reads a clause, from its name on, with the bindings as they are. -/
def readClause (d : Dialect) (b : Bindings) (clause : Clause) : Reading (String × Float) := do
  let name ← expect .name (.missingName clause)
  let _ ← expect .equals (.missingEquals clause name.lexeme)
  let value ← expression d b
  pure (name.lexeme, value)

open Reading in
/-- Reads a statement. -/
def readStatement (d : Dialect) (b : Bindings) : Reading Action := do
  let t ← next
  match t.kind with
  | .letWord => do
    let (name, value) ← readClause d b .declaration
    pure (.declare name value false)
  | .constWord => do
    let (name, value) ← readClause d b .declaration
    pure (.declare name value true)
  | .setWord => do
    let (name, value) ← readClause d b .assignment
    pure (.assign name value)
  | _ => do
    putBack t
    let value ← expression d b
    pure (.print value)

open Reading in
/-- The first token of the next statement: terminators in front of it are
    passed over, at most `limit` of them. -/
def readStart : (limit : Nat) → Reading Token
  | 0 => throw .budgetExhausted
  | limit + 1 => do
    let t ← next
    if t.kind = .terminator then readStart limit else pure t

/-- A dialect, a text that is being read, and the names declared so far. -/
structure Session where
  dialect : Dialect
  scanner : Scanner
  bindings : Bindings

namespace Session

/-- A session at the start of a text. -/
def ofText (d : Dialect) (b : Bindings) (text : List Char) : Session :=
  ⟨d, .ofText d.keywords text, b⟩

/-- The value of a statement and the change that it made. -/
structure Outcome where
  value : Float
  change : Option Change := none
deriving DecidableEq

/-- Runs a reading on the text of the session. -/
def read {α : Type} (r : Reading α) : EStateM Fault Session α := fun s =>
  match r s.scanner with
  | .ok a scanner => .ok a { s with scanner }
  | .error e scanner => .error e { s with scanner }

/-- Carries out an action. -/
def perform (a : Action) : EStateM Fault Session Outcome := fun s =>
  match s.bindings.change? a with
  | .error cause => .error (.rejected ⟨cause, none⟩) s
  | .ok none => .ok ⟨a.value, none⟩ s
  | .ok (some change) => .ok ⟨a.value, some change⟩ { s with bindings := s.bindings.apply change }

/-- Reads and carries out one statement. -/
def statement : EStateM Fault Session Outcome := do
  let s ← get
  let action ← read (readStatement s.dialect s.bindings)
  perform action

/-- Reads up to the next statement and carries it out; none if the session is
    over, by a word for it or at the end of the text. -/
def turn : EStateM Fault Session (Option Outcome) := do
  let s ← get
  let t ← read (readStart (s.scanner.remaining + 1))
  if t.kind = .quit then pure none
  else
    -- the statement reads its own first token
    read (Reading.putBack t)
    let outcome ← statement
    pure (some outcome)

/-- Gives up the rest of a rejected statement, through its terminator. -/
def recover (s : Session) : List Record × Session :=
  match s.scanner.ignore .terminator with
  | (none, scanner) => ([.recovering], { s with scanner })
  | (some count, scanner) => ([.recovering, .skipped count .terminator], { s with scanner })

/-- Supplies more text to a session that has come to the end of its text. -/
def resume (text : List Char) (s : Session) : Session :=
  { s with scanner.cursor := s.scanner.cursor.resume text }

/-- Whether the session has come to the end of its text. -/
def isWaiting (s : Session) : Bool := s.scanner.cursor.ended

/-! ## Running a session -/

/-- What one statement comes to. -/
inductive Step where
  | value (v : Float)
  | rejected (r : Rejection)
deriving DecidableEq

/-- A session that was run to its end. -/
structure Run where
  steps : List Step
  /-- What stopped the session before its end. -/
  fault : Option Fault
  /-- The session as it was left. -/
  final : Session

/-- Puts a step in front of a run. -/
def Run.after (step : Step) (r : Run) : Run := { r with steps := step :: r.steps }

/-- Runs at most `limit` statements of the session. -/
def runWithin : (limit : Nat) → Session → Run
  | 0, s => ⟨[], some .budgetExhausted, s⟩
  | limit + 1, s =>
    match s.turn with
    | .ok none s => ⟨[], none, s⟩
    | .ok (some outcome) s => (runWithin limit s).after (.value outcome.value)
    | .error (.rejected r) s => (runWithin limit s.recover.2).after (.rejected r)
    | .error fault s => ⟨[], some fault, s⟩

/-- Runs the session to its end. Every statement takes a token out of the text,
    so there are no more statements than characters. -/
def run (s : Session) : Run := runWithin (s.scanner.remaining + 1) s

end Session

end Calculator
