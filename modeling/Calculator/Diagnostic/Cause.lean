import Calculator.Decimal.Shortest
import Calculator.Diagnostic.Basic
import Calculator.Text.Quoted

/-! # Why a statement is rejected

    Every error that a user can cause is one constructor of `Cause`, with what
    its message mentions. A `Rejection` adds the place, where the place is
    known: only the last step of a statement, the update of the bindings, has
    none.
-/

namespace Calculator

open Text (quoted quotedChar)

/-- The two kinds of statement that begin with a name and an equals sign. -/
inductive Clause where
  | declaration
  | assignment
deriving DecidableEq, Repr

/-- The word for a clause in messages. -/
def Clause.noun : Clause → String
  | .declaration => "declaration"
  | .assignment => "assignment"

/-- Why a statement is rejected. -/
inductive Cause where
  /-- A decimal point without a digit next to it. -/
  | malformedNumber (c : Char)
  /-- A character that begins no token. -/
  | unexpectedCharacter (c : Char)
  /-- No name where a clause needs one. -/
  | missingName (clause : Clause)
  /-- No equals sign after the name in a clause. -/
  | missingEquals (clause : Clause) (name : String)
  /-- No parenthesis after the word for the square root. -/
  | missingRootArgument
  /-- A bracket that is not closed where its contents end. -/
  | missingClosing (bracket : Char)
  /-- A token that begins no factor. -/
  | missingFactor
  /-- A declaration of a name that is taken. -/
  | alreadyDeclared (name : String)
  /-- A name that has not been declared. -/
  | undefinedName (name : String)
  /-- An assignment to a constant. -/
  | constantAssigned (name : String)
  | divisionByZero
  | moduloByZero
  | negativeRoot (x : Float)
  | fractionalFactorial (x : Float)
  | negativeFactorial (n : Int)
deriving DecidableEq

namespace Cause

/-- The category under which a cause is reported. -/
def category : Cause → Category
  | malformedNumber _ | unexpectedCharacter _ => .token
  | missingName _ | missingEquals _ _ | missingRootArgument | missingClosing _
  | missingFactor => .grammar
  | alreadyDeclared _ | undefinedName _ => .name
  | constantAssigned _ => .constant
  | divisionByZero | moduloByZero => .arithmetic
  | negativeRoot _ | fractionalFactorial _ | negativeFactorial _ => .domain

/-- The wording of a cause. -/
def summary : Cause → String
  | malformedNumber c => "Malformed number starting with " ++ quotedChar c
  | unexpectedCharacter c => "Unexpected character: " ++ quotedChar c
  | missingName clause => "Identifier missing in " ++ clause.noun
  | missingEquals clause name => "'=' missing in " ++ clause.noun ++ " of " ++ quoted name
  | missingRootArgument => "'(' missing after sqrt"
  | missingClosing bracket => "'" ++ bracket.toString ++ "' missing in expression"
  | missingFactor => "Factor expected"
  | alreadyDeclared name => quoted name ++ " is already declared"
  | undefinedName name => quoted name ++ " is undefined"
  | constantAssigned name => "Cannot assign to a constant " ++ quoted name
  | divisionByZero => "Division by zero"
  | moduloByZero => "Modulo division by zero"
  | negativeRoot x => "Square root of negative number " ++ valueText x
  | fractionalFactorial x => "Factorial of non-integral number " ++ valueText x
  | negativeFactorial n => "Factorial of negative number " ++ toString n

end Cause

/-- A place in the text: a line and a column in it. -/
structure Place where
  line : List Char
  column : Int
deriving DecidableEq, Repr

/-- The rejection of a statement. -/
structure Rejection where
  cause : Cause
  /-- The offending item, if there is one. -/
  place : Option Place := none
deriving DecidableEq

/-- The message of a rejection. -/
def Rejection.diagnostic (r : Rejection) : Diagnostic :=
  match r.place with
  | some p => ⟨r.cause.category, r.cause.summary, p.line, p.column⟩
  | none => { category := r.cause.category, summary := r.cause.summary }

end Calculator
