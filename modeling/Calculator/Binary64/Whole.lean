import Calculator.Binary64.Basic

/-! # Doubles with a whole-number value

    Integrality and parity are those of the exact value, however large: from
    `2 ^ 53` on every finite double is a whole number and an even one.
-/

namespace Calculator.Binary64

/-- The value of `x` if it is a whole number; `-0.0` has the value `0`. -/
def whole? (x : Float) : Option Int :=
  match form x with
  | .finite sign n =>
    if n % unitsPerOne = 0 then
      let magnitude : Int := (n / unitsPerOne : Nat)
      some (if sign then -magnitude else magnitude)
    else none
  | _ => none

/-- Whether `x` is finite and without a fractional part. -/
def isWhole (x : Float) : Bool := (whole? x).isSome

/-- Whether `x` is an odd whole number. -/
def isOdd (x : Float) : Bool := (whole? x).any (· % 2 = 1)

end Calculator.Binary64
