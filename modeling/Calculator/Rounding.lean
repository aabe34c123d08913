/-! # Rounding a quotient to the nearest whole number

    The one rounding rule of the project: a quotient goes to the nearest whole
    number, and a quotient that lies exactly between two of them goes to the
    even one. Reading a literal rounds once with it, in units of the least
    positive double; printing rounds once with it, in units of the last digit
    that is shown.
-/

namespace Calculator

/-- `num / den` rounded to the nearest whole number, ties to the even one. -/
def roundQuotient (num den : Nat) : Nat :=
  let floor := num / den
  let rest := 2 * (num % den)
  if rest < den then floor
  else if den < rest then floor + 1
  else floor + floor % 2

/-! ## Elementary facts -/

/-- A quotient without remainder is its own rounding. -/
theorem roundQuotient_mul_left (n : Nat) {den : Nat} (h : 0 < den) :
    roundQuotient (n * den) den = n := by
  simp [roundQuotient, Nat.mul_div_cancel _ h, h]

theorem roundQuotient_one (n : Nat) : roundQuotient n 1 = n := by
  simpa using roundQuotient_mul_left n Nat.one_pos

theorem div_le_roundQuotient (num den : Nat) : num / den ≤ roundQuotient num den := by
  unfold roundQuotient
  dsimp only
  split
  · exact Nat.le_refl _
  · split <;> omega

theorem roundQuotient_le_div_succ (num den : Nat) :
    roundQuotient num den ≤ num / den + 1 := by
  unfold roundQuotient
  dsimp only
  split
  · omega
  · split <;> omega

end Calculator
