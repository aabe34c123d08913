import Calculator.Rounding
import Calculator.Binary64.Basic
import Calculator.Decimal.Layout

/-! # The shortest decimal that reads back

    Values quoted in messages are written with the fewest digits that still
    read back as the same double, and among those with the ones nearest to it.

    The reals that read back as a double form an interval: half a step to both
    sides, except that the step below a power of two is half as long. The ends
    belong to it exactly if the double has an even code. All comparisons are
    made on natural numbers, in quarters of a unit.
-/

namespace Calculator

/-- The reals `r` with `low ≤ r ≤ high`, or with both inequalities strict, in
    quarters of a unit. -/
structure Reach where
  low : Nat
  high : Nat
  closed : Bool
deriving DecidableEq, Repr

namespace Reach

/-- The reals that read back as the double with `n` units. -/
def ofUnits (n : Nat) : Reach :=
  let step := Binary64.step n
  let below := if step ≠ 1 ∧ n = Binary64.binadeSize * step then step else 2 * step
  ⟨4 * n - below, 4 * n + 2 * step, (n / step) % 2 = 0⟩

/-- Whether `num / den` quarters of a unit lie in the interval. -/
def contains (r : Reach) (num den : Nat) : Bool :=
  if r.closed then r.low * den ≤ num && num ≤ r.high * den
  else r.low * den < num && num < r.high * den

end Reach

namespace Decimal

/-- The multiple of `10 ^ e` nearest to `n` units among those that read back as
    these units; of the two multiples around the value the even one, if they
    are equally near. -/
def nearestOnGrid? (n : Nat) (e : Int) : Option Decimal :=
  let up := Nat.pow 10 (-e).toNat
  let den := Binary64.unitsPerOne * Nat.pow 10 e.toNat
  let floor := n * up / den
  let hits (c : Nat) : Bool := (Reach.ofUnits n).contains (4 * c * den) up
  let nearest := roundQuotient (n * up) den
  -- the interval may be longer above the value than below it, so both are tried
  let candidates := if nearest = floor then [floor, floor + 1] else [floor + 1, floor]
  (candidates.find? hits).map (ofScaled · e)

/-- The shortest decimal that reads back as `n` units: the coarsest grid with a
    hit, among those on which the value has one to seventeen digits. -/
def shortest (n : Nat) : Decimal :=
  if n = 0 then zero
  else
    let all := n * Nat.pow 5 1074
    let exponent : Int := (Nat.toDigits 10 all).length - 1 - 1074
    ((List.range 17).findSome? fun (places : Nat) => nearestOnGrid? n (exponent - places)).getD
      (ofScaled all (-1074))

end Decimal

/-- Quoted values are written positionally below `10 ^ 16` and always show that
    they are not integers. -/
def quotedLayout : Layout := ⟨16, ['.', '0']⟩

/-- The text of a value that is quoted in a message. -/
def valueText (x : Float) : String :=
  String.ofList <|
    match Binary64.form x with
    | .nan => ['n', 'a', 'n']
    | .infinite sign => (if sign then ['-'] else []) ++ ['i', 'n', 'f']
    | .finite sign n => (if sign then ['-'] else []) ++ quotedLayout.write (.shortest n)

end Calculator
