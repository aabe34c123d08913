import Calculator.Binary64.Whole

/-! # Raising to a power

    The power function of the floating-point standard. Which results are NaN,
    infinite or zero because an operand is, and the sign of every result, are
    decided here on the exact values of the operands. The magnitude of the
    remaining results is that of `Float.pow`.
-/

namespace Calculator.Binary64

/-- An infinity or a zero of the given sign. -/
def limit (sign unbounded : Bool) : Float :=
  if unbounded then infinity sign else ofCode sign 0

/-- `base` raised to `exponent`.

    Any base to the power zero, and one to any power, is one. A negative result
    comes from a negative base (`-0.0` included) and an odd exponent only. A
    negative finite base has no power with a fractional exponent. -/
def power (base exponent : Float) : Float :=
  if exponent == 0 || base == 1 then 1
  else
    match form base, form exponent with
    | .nan, _ => nan
    | _, .nan => nan
    | _, .infinite sign =>
      if base.abs == 1 then 1 else limit false (decide (1 < base.abs) != sign)
    | .infinite sign, .finite below _ => limit (sign && isOdd exponent) !below
    | .finite sign 0, .finite below _ => limit (sign && isOdd exponent) below
    | .finite sign (_ + 1), .finite _ _ =>
      if sign && !isWhole exponent then nan
      else withSign (sign && isOdd exponent) (base.abs.pow exponent)

end Calculator.Binary64
