import Calculator.Rounding
import Calculator.Binary64.Basic

/-! # The double nearest to a quotient

    `nearestCode num den` is the code of the double nearest to `num / den`
    units, ties going to the double with the even code. Codes count the doubles
    in order of magnitude, so rounding within a binade and carrying into the
    next one are the same addition, and everything from half a step above the
    greatest finite double on meets the code of infinity.
-/

namespace Calculator.Binary64

/-- The code of the double nearest to `num / den` units. -/
def nearestCode (num den : Nat) : Nat :=
  let floor := num / den
  min infinityCode (doublings floor * binadeSize + roundQuotient num (den * step floor))

/-- The double of the given sign nearest to `num / den` units. -/
def nearest (sign : Bool) (num den : Nat) : Float := ofCode sign (nearestCode num den)

/-- The double of the given sign nearest to `n` units; the double with exactly
    `n` units if there is one. -/
def ofUnits (sign : Bool) (n : Nat) : Float := nearest sign n 1

/-- The double nearest to the natural number `n`. -/
def ofNat (n : Nat) : Float := ofUnits false (n * unitsPerOne)

/-- The double nearest to `m · 10 ^ e`.

    Two ranges are decided by their exponent alone. From `10 ^ 310` on every
    value is beyond the greatest double. Below `2 ^ -1075` every value is
    nearer to zero than to the least positive double, and
    `m · 10 ^ e` lies below `2 ^ (m.log2 + 1 + 3 * e)` for negative `e`. -/
def ofDecimal (m : Nat) (e : Int) : Float :=
  if m = 0 then ofCode false 0
  else if 310 ≤ e then infinity false
  else if 0 ≤ e then nearest false (m * Nat.pow 10 e.toNat * unitsPerOne) 1
  else if (m.log2 : Int) + 1 + 3 * e ≤ -1075 then ofCode false 0
  else nearest false (m * unitsPerOne) (Nat.pow 10 (-e).toNat)

/-! ## Small magnitudes -/

/-- In the first two binades the codes count the units. -/
theorem nearestCode_one_of_lt {n : Nat} (h : n < 2 * binadeSize) : nearestCode n 1 = n := by
  have hlog : n.log2 < 53 := by
    by_cases h0 : n = 0
    · subst h0; decide
    · exact (Nat.log2_lt h0).2 h
  have hdoublings : doublings n = 0 := by unfold doublings; omega
  have hle : n ≤ infinityCode := Nat.le_trans (Nat.le_of_lt h) (by decide)
  have hround : roundQuotient n (1 * Nat.pow 2 0) = n := roundQuotient_one n
  rw [nearestCode, Nat.div_one, step, hdoublings, hround, Nat.zero_mul, Nat.zero_add]
  exact Nat.min_eq_right hle

theorem unitsOfCode_of_lt {c : Nat} (h : c < 2 * binadeSize) : unitsOfCode c = c := by
  rw [unitsOfCode, if_pos h]

end Calculator.Binary64
