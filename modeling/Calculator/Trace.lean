import Calculator.Bindings
import Calculator.Token.Basic

/-! # The trace of a session

    What a verbose session reports besides results and errors: one record for
    every change of the bindings, every failed statement and every recovery.
-/

namespace Calculator

open Text (quoted)

/-- One record of the trace. -/
inductive Record where
  | changed (change : Change)
  /-- A session has begun. -/
  | started (constants : Nat) (dialect : String)
  /-- A statement was rejected. -/
  | failed (summary : String)
  /-- The rest of a rejected statement is given up. -/
  | recovering
  /-- Unread characters were discarded before a token of some kind. -/
  | skipped (count : Nat) (kind : Token.Kind)
deriving DecidableEq

namespace Record

/-- The part of the calculator that a record comes from. -/
def origin : Record → String
  | changed _ => "deskcalc.symbols"
  | started _ _ | failed _ => "deskcalc.repl"
  | recovering => "deskcalc.evaluator"
  | skipped _ _ => "deskcalc.tokenizer"

/-- The wording of a record. -/
def message : Record → String
  | changed (.declared name value constant) =>
    "Declared " ++ (if constant then "constant " else "variable ") ++ name ++ " = " ++
      valueText value
  | changed (.assigned name value old) =>
    "Assigned " ++ name ++ " = " ++ valueText value ++ " (was " ++ valueText old ++ ")"
  | started constants dialect =>
    "Starting session with " ++ toString constants ++ " predefined constants, dialect " ++
      quoted dialect
  | failed summary => "Statement failed: " ++ summary
  | recovering => "Recovering from error, discarding the rest of the statement"
  | skipped count kind =>
    "Skipped " ++ toString count ++ " characters up to " ++ kind.label

/-- A record as a line of the trace. -/
def text (r : Record) : String := "DEBUG " ++ r.origin ++ ": " ++ r.message

end Record

end Calculator
