import Calculator.Binary64.Nearest

/-! # The floating remainder

    The remainder of two finite doubles is the remainder of their units, with
    the sign of the dividend. It is exact: the remainder of the units is below
    the divisor and a multiple of the smaller of the two steps, so it is the
    units of a double again.
-/

namespace Calculator.Binary64

/-- The remainder of `a` by `b` for a quotient cut toward zero. A finite
    dividend is its own remainder by an infinite divisor; with an infinite
    dividend, a zero divisor or a NaN there is none. -/
def remainder (a b : Float) : Float :=
  match form a, form b with
  | .finite sign m, .finite _ n => if n = 0 then nan else ofUnits sign (m % n)
  | .finite _ _, .infinite _ => a
  | _, _ => nan

end Calculator.Binary64
