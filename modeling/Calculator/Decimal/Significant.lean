import Calculator.Rounding
import Calculator.Binary64.Basic
import Calculator.Decimal.Layout

/-! # Results to a number of significant digits

    A result is rounded once, from its exact value, to a number of significant
    digits, with ties going to the even digit; zeros at the end are not
    written. The exact value of `n` units is `n · 5¹⁰⁷⁴ · 10⁻¹⁰⁷⁴`, so all the
    digits that a double ever has are those of a natural number.
-/

namespace Calculator

/-- The exact value of `n` units, rounded to `p` significant digits. -/
def Decimal.significant (p n : Nat) : Decimal :=
  let all := n * Nat.pow 5 1074
  let excess := (Nat.toDigits 10 all).length - p
  .ofScaled (roundQuotient all (Nat.pow 10 excess)) (excess - 1074)

/-- The greatest number of digits that can be asked for. -/
def maxPrecision : Int := 2147483647

/-- Results are written positionally as long as all digits of their whole part
    are among the significant ones. -/
def resultLayout (p : Nat) : Layout := ⟨p, []⟩

/-- The text of a result to `p` significant digits, at least one. -/
def resultChars (p : Nat) (x : Float) : List Char :=
  let p := max p 1
  match Binary64.form x with
  | .nan => ['n', 'a', 'n']
  | .infinite sign => (if sign then ['-'] else []) ++ ['i', 'n', 'f']
  | .finite sign n =>
    (if sign then ['-'] else []) ++ (resultLayout p).write (.significant p n)

/-- The text of a result, if the precision is one that can be asked for. -/
def resultText? (precision : Int) (x : Float) : Option String :=
  if 0 ≤ precision && precision ≤ maxPrecision then
    some (String.ofList (resultChars precision.toNat x))
  else none

end Calculator
