import Calculator.Binary64.Nearest
import Calculator.Binary64.Whole
import Calculator.Diagnostic.Cause

/-! # Functions with a domain

    The square root and the factorial reject the arguments that they have no
    value for. A NaN has a square root, itself, but no factorial.
-/

namespace Calculator

/-- The square root of a number that is not negative; `-0.0` is not. -/
def squareRoot (x : Float) : Except Cause Float :=
  if x < 0 then .error (.negativeRoot x) else .ok x.sqrt

/-- `start · k`, `start · k · (k + 1)`, …, at most `count` products, each of them
    rounded. An infinite product is not multiplied any further. -/
def passes : (count k : Nat) → (start : Float) → List Float
  | 0, _, _ => []
  | count + 1, k, start =>
    let next := start * Binary64.ofNat k
    if next.isInf then [next] else next :: passes count (k + 1) next

/-- `start · k · (k + 1) · …`, `count` factors after `start`, rounded after each
    one: the last one of its passes. -/
def risingProduct (count k : Nat) (start : Float) : Float :=
  (passes count k start).getLastD start

theorem risingProduct_succ (count k : Nat) (start : Float) :
    risingProduct (count + 1) k start =
      let next := start * Binary64.ofNat k
      if next.isInf then next else risingProduct count (k + 1) next := by
  dsimp only [risingProduct, passes]
  split
  · rfl
  · exact List.getLastD_cons ..

/-- The factorial of a whole number that is not negative. -/
def factorial (x : Float) : Except Cause Float :=
  match Binary64.whole? x with
  | none => .error (.fractionalFactorial x)
  | some (.ofNat n) => .ok (risingProduct (n - 1) 2 1)
  | some n@(.negSucc _) => .error (.negativeFactorial n)

end Calculator
