/-! # Error messages

    A message has a heading, and, where the place of the error is known, the
    line it is on with a caret under the place. Of a long line only the ten
    characters to each side are shown, with dots where something is left out.
-/

namespace Calculator

/-- What kind of error a message reports. -/
inductive Category where
  | general
  | token
  | grammar
  | name
  | constant
  | arithmetic
  | domain
deriving DecidableEq, Repr

/-- The heading of the messages of a category. -/
def Category.title : Category → String
  | .general => "Error"
  | .token => "Tokenizer error"
  | .grammar => "Syntax error"
  | .name => "Name error"
  | .constant => "Const error"
  | .arithmetic => "Arithmetic error"
  | .domain => "Domain error"

/-- An error message before it is laid out. -/
structure Diagnostic where
  category : Category
  summary : String
  /-- The line that the error is on; empty if it is not known. -/
  line : List Char := []
  /-- Where on the line; negative if it is not known. -/
  column : Int := -1
deriving DecidableEq, Repr

namespace Diagnostic

/-- How many characters are shown to each side of the place. -/
def margin : Nat := 10

/-- What marks the characters that are left out. -/
def ellipsis : List Char := ['.', '.', '.']

/-- The line without the line feeds at its end. -/
def visible (line : List Char) : List Char := (line.reverse.dropWhile (· = '\n')).reverse

/-- The part of a line that is shown for an error at `column`. -/
def excerpt (line : List Char) (column : Nat) : List Char :=
  let first := column - margin
  let past := min line.length (column + margin)
  (if 0 < first then ellipsis else []) ++
    (line.drop first).take (past - first) ++
    (if past < line.length then ellipsis else [])

/-- The caret line below the excerpt. -/
def caret (column : Nat) : List Char :=
  let first := column - margin
  List.replicate (column - first + if 0 < first then ellipsis.length else 0) ' ' ++ ['^']

/-- The heading: category and summary. -/
def heading (d : Diagnostic) : String := "[" ++ d.category.title ++ "] " ++ d.summary

/-- The message as it is shown. -/
def text (d : Diagnostic) : String :=
  let line := visible d.line
  if line = [] || d.column < 0 then d.heading
  else
    d.heading ++ "\n" ++ String.ofList (excerpt line d.column.toNat) ++ "\n" ++
      String.ofList (caret d.column.toNat)

end Diagnostic

end Calculator
