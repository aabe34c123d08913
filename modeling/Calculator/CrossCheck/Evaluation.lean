import Calculator.Binary64.Power
import Calculator.Binary64.Remainder
import Calculator.CrossCheck.Sample
import Calculator.Session

/-! # Evaluating samples twice

    A sample is evaluated in both notations. The bracketed notation is strict:
    a division by zero, a power that is too large and an operation without a
    result stop it, where the calculator goes on with an infinity or a NaN. The
    two evaluations agree if they give nearly the same double, and if a
    division by zero stops both.
-/

namespace Calculator.CrossCheck

/-- What stops the strict evaluation. -/
inductive Breakdown where
  | zeroDivision
  | overflow
  /-- An operation without a result. -/
  | domain
deriving DecidableEq, Repr

namespace Strict

/-- The quotient; every zero divisor is an error. -/
def divide (a b : Float) : Except Breakdown Float :=
  if b == 0 then .error .zeroDivision else .ok (a / b)

/-- The remainder. Numbers without a remainder are an error, a NaN is not. -/
def modulo (a b : Float) : Except Breakdown Float :=
  if a.isNaN || b.isNaN then .ok Binary64.nan
  else if a.isInf || b == 0 then .error .domain
  else .ok (Binary64.remainder a b)

/-- The power. For finite operands, an infinite result and a missing one are
    errors. -/
def power (base exponent : Float) : Except Breakdown Float :=
  let result := Binary64.power base exponent
  if !base.isFinite || !exponent.isFinite then .ok result
  else if base == 0 && exponent < 0 then .error .domain
  else if base < 0 && !Binary64.isWhole exponent then .error .domain
  else if result.isInf then .error .overflow
  else .ok result

end Strict

/-- The value of a sample in the bracketed notation; operands are evaluated from
    left to right, and the first error stands. -/
def Sample.value : {tier : Tier} → Sample tier → Except Breakdown Float
  | _, literal l => .ok l.value
  | _, negated x => do return -(← x.value)
  | _, enclosed e x => do
    let v ← x.value
    return if e = .bars then v.abs else v
  | _, factor x => x.value
  | _, raised base exponent => do
    let b ← base.value
    let e ← exponent.value
    Strict.power b e
  | _, power x => x.value
  | _, product x op y => do
    let a ← x.value
    let b ← y.value
    match op with
    | .mul => return a * b
    | .div => Strict.divide a b
    | .mod => Strict.modulo a b
  | _, term x => x.value
  | _, sum x op y => do
    let a ← x.value
    let b ← y.value
    match op with
    | .add => return a + b
    | .sub => return a - b

/-- The value that the calculator gives to a text that is one statement, in the
    full dialect with the predefined constants. -/
def calculated (code : String) : Except Fault Float :=
  match (Session.ofText .full .initial code.toList).statement with
  | .ok outcome _ => .ok outcome.value
  | .error fault _ => .error fault

/-- Whether two doubles are equal, or differ by at most `1e-12` or by at most
    `1e-9` of either. -/
def isClose (a b : Float) : Bool :=
  a == b ||
    (!a.isInf && !b.isInf &&
      (let gap := (b - a).abs
       gap ≤ (1e-9 * b).abs || gap ≤ (1e-9 * a).abs || gap ≤ 1e-12))

/-- Whether the two evaluations of a sample agree. A breakdown other than the
    division by zero is no disagreement, whatever the calculator gives. -/
def agree {ε : Type} (strict : Except Breakdown Float) (own : Except ε Float) : Bool :=
  match strict, own with
  | .error .zeroDivision, .error _ => true
  | .error .zeroDivision, .ok _ => false
  | .error _, _ => true
  | .ok _, .error _ => false
  | .ok a, .ok b => if a.isNaN || b.isNaN then a.isNaN && b.isNaN else isClose a b

end Calculator.CrossCheck
