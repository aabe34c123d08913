import Calculator.Binary64.Power
import Calculator.Binary64.Remainder
import Calculator.Bindings
import Calculator.Dialect
import Calculator.Functions
import Calculator.Token.Scanner

/-! # Reading and evaluating expressions

    Expressions are evaluated as they are read, token by token:

        expression ::= term { ("+" | "-") term }
        term       ::= power { ("*" | "/" | "%") power }
        power      ::= factor [ "!" | "^" factor ]
        factor     ::= opening expression closing | "|" expression "|"
                     | "sqrt" "(" expression ")" | "-" factor | "+" factor
                     | number | name

    One token of lookahead decides how to go on, and is put back when it does
    not belong to the expression. A power takes one postfix operator at most, so
    the second one in `2^3^2` is left unread. Which error is reported when there
    are several is settled by the order of reading: a division by zero is found
    before a bracket that is missing further on.

    The readers call each other to any depth. Each takes a budget that limits
    the depth; `expression` supplies one that the remaining text cannot use up,
    because every level of nesting and every operator takes a token.
-/

namespace Calculator

/-- What stops the reading of a statement. -/
inductive Fault where
  /-- The statement is rejected; the session goes on. -/
  | rejected (r : Rejection)
  /-- A group whose closing kind is not a closing bracket. -/
  | unclosable (kind : Token.Kind)
  /-- A token was put back into an occupied slot. -/
  | slotOccupied (held offered : Token)
  /-- A budget is used up. Budgets are computed so that this does not happen. -/
  | budgetExhausted
deriving DecidableEq

/-- A computation that takes tokens from a scanner. -/
abbrev Reading := EStateM Fault Scanner

namespace Reading

/-- The next token. -/
def next : Reading Token := fun s =>
  match s.get with
  | (.ok t, s) => .ok t s
  | (.error r, s) => .error (.rejected r) s

/-- Puts a token back. -/
def putBack (t : Token) : Reading Unit := fun s =>
  match s.putBack t with
  | .ok s => .ok () s
  | .error held => .error (.slotOccupied held t) s

/-- Rejects the statement because of a token. The line of the error is the one
    that was read last. -/
def rejectAt {α : Type} (t : Token) (cause : Cause) : Reading α := fun s =>
  .error (.rejected ⟨cause, some ⟨s.cursor.line, t.column⟩⟩) s

/-- A value, or a rejection because of a token. -/
def located (t : Token) : Except Cause Float → Reading Float
  | .ok x => pure x
  | .error cause => rejectAt t cause

/-- The next token, which has to be of the given kind. -/
def expect (kind : Token.Kind) (cause : Cause) : Reading Token := do
  let t ← next
  if t.kind = kind then pure t else rejectAt t cause

/-- The closing token of a group. -/
def expectClosing (kind : Token.Kind) : Reading Unit :=
  match kind.closingBracket? with
  | some bracket => do let _ ← expect kind (.missingClosing bracket)
  | none => throw (.unclosable kind)

/-- The quotient of a term by a divisor that follows the token `t`. -/
def divide (t : Token) (left right : Float) : Reading Float :=
  if right == 0 then rejectAt t .divisionByZero else pure (left / right)

/-- The remainder of a term by a divisor that follows the token `t`. -/
def modulo (t : Token) (left right : Float) : Reading Float :=
  if right == 0 then rejectAt t .moduloByZero else pure (Binary64.remainder left right)

end Reading

open Reading

mutual

/-- Reads an expression: a first term and the sum that it begins. -/
def expressionWithin (d : Dialect) (b : Bindings) : Nat → Reading Float
  | 0 => throw .budgetExhausted
  | budget + 1 => do
    let first ← termWithin d b budget
    sumWithin d b budget first

/-- Continues a sum whose value so far is `left`. -/
def sumWithin (d : Dialect) (b : Bindings) : Nat → Float → Reading Float
  | 0, _ => throw .budgetExhausted
  | budget + 1, left => do
    let t ← next
    match t.kind with
    | .plus => do
      let right ← termWithin d b budget
      sumWithin d b budget (left + right)
    | .minus => do
      let right ← termWithin d b budget
      sumWithin d b budget (left - right)
    | _ => do
      putBack t
      pure left

/-- Reads a term: a first power and the product that it begins. -/
def termWithin (d : Dialect) (b : Bindings) : Nat → Reading Float
  | 0 => throw .budgetExhausted
  | budget + 1 => do
    let first ← powerWithin d b budget
    productWithin d b budget first

/-- Continues a product whose value so far is `left`. -/
def productWithin (d : Dialect) (b : Bindings) : Nat → Float → Reading Float
  | 0, _ => throw .budgetExhausted
  | budget + 1, left => do
    let t ← next
    match t.kind with
    | .star => do
      let right ← powerWithin d b budget
      productWithin d b budget (left * right)
    | .slash => do
      let right ← powerWithin d b budget
      productWithin d b budget (← divide t left right)
    | .percent => do
      let right ← powerWithin d b budget
      productWithin d b budget (← modulo t left right)
    | _ => do
      putBack t
      pure left

/-- Reads a power: a factor with at most one postfix operator. -/
def powerWithin (d : Dialect) (b : Bindings) : Nat → Reading Float
  | 0 => throw .budgetExhausted
  | budget + 1 => do
    let base ← factorWithin d b budget
    let t ← next
    match t.kind with
    | .bang => located t (factorial base)
    | .caret => do
      let exponent ← factorWithin d b budget
      pure (Binary64.power base exponent)
    | _ => do
      putBack t
      pure base

/-- Reads a factor. The brackets of the dialect take precedence over every
    other meaning of a token. -/
def factorWithin (d : Dialect) (b : Bindings) : Nat → Reading Float
  | 0 => throw .budgetExhausted
  | budget + 1 => do
    let t ← next
    match d.closing? t with
    | some closing => do
      let x ← expressionWithin d b budget
      expectClosing closing
      pure x
    | none =>
      match t.kind with
      | .bar =>
        if d.absoluteValue then do
          let x ← expressionWithin d b budget
          expectClosing .bar
          pure x.abs
        else rejectAt t .missingFactor
      | .rootWord => do
        let _ ← expect .openParen .missingRootArgument
        let x ← expressionWithin d b budget
        let root ← located t (squareRoot x)
        expectClosing .closeParen
        pure root
      | .minus => do
        let x ← factorWithin d b budget
        pure (-x)
      | .plus => factorWithin d b budget
      | .number => pure t.value
      | .name => located t (b.get t.lexeme)
      | _ => rejectAt t .missingFactor

end

/-- A depth of nesting that the remaining text cannot exceed: each token adds at
    most the four kinds of reader. -/
def Scanner.nestingBudget (s : Scanner) : Nat := 4 * s.remaining + 4

/-- Reads an expression. -/
def expression (d : Dialect) (b : Bindings) : Reading Float := fun s =>
  expressionWithin d b s.nestingBudget s

end Calculator
