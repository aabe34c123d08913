import Calculator.Text.Blank
import Calculator.Text.DecimalDigit

/-! # Integers on the command line

    An integer has an optional sign and decimal digits of any script, with
    single underscores between digits and blanks around the whole. More than
    4300 digits are refused. Among the ASCII controls only `09`-`0D` count as
    blanks here.
-/

namespace Calculator.CommandLine

open Text (isSpace decimalDigit?)

/-- The greatest number of digits of an integer. -/
def maxDigits : Nat := 4300

/-- Whether a character may stand around an integer. -/
def isPadding (c : Char) : Bool :=
  if c.toNat < 0x80 then c = ' ' || (0x09 ≤ c.toNat && c.toNat ≤ 0x0D) else isSpace c

/-- The text without padding at both ends. -/
def trim (cs : List Char) : List Char :=
  ((cs.dropWhile isPadding).reverse.dropWhile isPadding).reverse

/-- The values of a row of digits. An underscore stands between two digits;
    `afterDigit` tells whether it may come next. -/
def digitValues? : (afterDigit : Bool) → List Char → Option (List Nat)
  | afterDigit, [] => if afterDigit then some [] else none
  | afterDigit, c :: rest =>
    match decimalDigit? c with
    | some d => (d :: ·) <$> digitValues? true rest
    | none => if c = '_' && afterDigit then digitValues? false rest else none

/-- The natural number that a row of digits stands for. -/
def natural? (cs : List Char) : Option Nat :=
  match digitValues? false cs with
  | some digits =>
    if digits.length ≤ maxDigits then some (digits.foldl (10 * · + ·) 0) else none
  | none => none

/-- The integer that a text stands for. -/
def integer? (s : String) : Option Int :=
  match trim s.toList with
  | '+' :: rest => (natural? rest).map Int.ofNat
  | '-' :: rest => (natural? rest).map fun n => -(n : Int)
  | cs => (natural? cs).map Int.ofNat

end Calculator.CommandLine
