import Mathlib.Algebra.Group.Nat.Defs
import Calculator.Binary64.Nearest
import Calculator.Proofs.Binary64.Bits

/-! # Units and codes

    The codes of the finite doubles and the numbers of units that they stand
    for. Rounding the units of a code gives the code back
    (`nearestCode_unitsOfCode`), and a number that is a multiple of the step at
    its size is the units of the code that it is rounded to
    (`unitsOfCode_nearestCode`). Rounding is monotone (`nearestCode_mono`), so
    nothing up to the greatest finite double is rounded to infinity
    (`nearestCode_lt_infinityCode`).
-/

namespace Calculator

/-! ## Rounding a quotient -/

/-- A greater numerator has no smaller rounded quotient. -/
theorem roundQuotient_mono {m n : Nat} (den : Nat) (h : m ≤ n) :
    roundQuotient m den ≤ roundQuotient n den := by
  have hfloor : m / den ≤ n / den := Nat.div_le_div_right h
  obtain hlt | heq := Nat.lt_or_eq_of_le hfloor
  · -- a whole number lies between the two quotients
    exact Nat.le_trans (roundQuotient_le_div_succ m den)
      (Nat.le_trans hlt (div_le_roundQuotient n den))
  · -- Both are rounded from the same whole number, by their remainders.
    have hm := Nat.div_add_mod m den
    have hn := Nat.div_add_mod n den
    rw [heq] at hm
    have hrest : m % den ≤ n % den := by omega
    unfold roundQuotient
    dsimp only
    rw [heq]
    generalize m % den = r at *
    generalize n % den = r' at *
    by_cases hr : 2 * r < den
    · rw [if_pos hr]
      split
      · exact Nat.le_refl _
      · split <;> omega
    · have hr' : ¬ 2 * r' < den := by omega
      rw [if_neg hr, if_neg hr']
      split <;> split <;> omega

/-- A quotient up to a whole number is rounded to that number at most. -/
theorem roundQuotient_le {m n den : Nat} (hden : 0 < den) (h : m ≤ n * den) :
    roundQuotient m den ≤ n :=
  calc roundQuotient m den ≤ roundQuotient (n * den) den := roundQuotient_mono den h
    _ = n := roundQuotient_mul_left n hden

namespace Binary64

/-! ## The binades -/

/-- A number of units is given by its doublings and 53 significant bits. -/
theorem doublings_mul_two_pow {m k : Nat} (hlow : binadeSize ≤ m) (hhigh : m < 2 * binadeSize) :
    doublings (m * 2 ^ k) = k := by
  have hpos := Nat.two_pow_pos k
  have hlog : (m * 2 ^ k).log2 = 52 + k := by
    refine (Nat.log2_eq_iff (Nat.mul_ne_zero ?_ (Nat.ne_of_gt hpos))).2 ⟨?_, ?_⟩
    · have := binadeSize_pos
      omega
    · rw [Nat.pow_add]
      exact Nat.mul_le_mul_right _ hlow
    · rw [show 52 + k + 1 = 53 + k by omega, Nat.pow_add]
      exact Nat.mul_lt_mul_of_pos_right hhigh hpos
  rw [doublings, hlog]
  omega

/-- No number of units has more than 53 bits once its step is divided out. -/
theorem lt_two_pow_doublings (n : Nat) : n < 2 * binadeSize * 2 ^ doublings n := by
  have hlog : n.log2 + 1 ≤ 53 + doublings n := by
    unfold doublings
    omega
  calc n < 2 ^ (n.log2 + 1) := Nat.lt_log2_self
    _ ≤ 2 ^ (53 + doublings n) := Nat.pow_le_pow_right (by decide) hlog
    _ = 2 * binadeSize * 2 ^ doublings n := Nat.pow_add ..

/-- From the third binade on there are just 53 bits. -/
theorem two_pow_doublings_le {n : Nat} (h : 2 * binadeSize ≤ n) :
    binadeSize * 2 ^ doublings n ≤ n := by
  have hne : n ≠ 0 := by
    have := binadeSize_pos
    omega
  have hlog : 53 ≤ n.log2 := (Nat.le_log2 hne).2 h
  have hdoublings : 52 + doublings n = n.log2 := by
    unfold doublings
    omega
  calc binadeSize * 2 ^ doublings n = 2 ^ (52 + doublings n) := (Nat.pow_add ..).symm
    _ ≤ n := hdoublings ▸ Nat.log2_self_le hne

theorem doublings_of_lt {n : Nat} (h : n < 2 * binadeSize) : doublings n = 0 := by
  by_cases hn : n = 0
  · subst hn
    decide
  · have hlog : n.log2 < 53 := (Nat.log2_lt hn).2 h
    unfold doublings
    omega

/-- The step does not shrink as the magnitude grows. -/
theorem doublings_mono {m n : Nat} (h : m ≤ n) : doublings m ≤ doublings n := by
  by_cases hm : m < 2 * binadeSize
  · rw [doublings_of_lt hm]
    exact Nat.zero_le _
  · -- Otherwise `m` would lie in a later binade than `n`.
    refine Nat.le_of_not_lt fun hlt => ?_
    have hlow := two_pow_doublings_le (Nat.not_lt.1 hm)
    have hhigh := lt_two_pow_doublings n
    have hpow : 2 ^ (doublings n + 1) ≤ 2 ^ doublings m := Nat.pow_le_pow_right (by decide) hlt
    have hmul := Nat.mul_le_mul_left binadeSize hpow
    rw [Nat.pow_succ] at hmul
    have : binadeSize * (2 ^ doublings n * 2) = 2 * binadeSize * 2 ^ doublings n := by
      rw [Nat.mul_comm (2 ^ _), ← Nat.mul_assoc, Nat.mul_comm binadeSize]
    omega

/-- The code of a number of units from its doublings. -/
theorem nearestCode_eq (n : Nat) :
    nearestCode n 1 =
      min infinityCode (doublings n * binadeSize + roundQuotient n (2 ^ doublings n)) := by
  rw [nearestCode, Nat.div_one, Nat.one_mul]
  rfl

/-! ## From a code to its units and back -/

theorem unitsOfCode_add {k m : Nat} (hk : 0 < k) (hlow : binadeSize ≤ m)
    (hhigh : m < 2 * binadeSize) : unitsOfCode (k * binadeSize + m) = m * 2 ^ k := by
  -- The mantissa of the code lacks the leading bit of `m`.
  have hbinade : k * binadeSize + m = (m - binadeSize) + (k + 1) * binadeSize := by
    rw [Nat.succ_mul]
    omega
  have hlt : m - binadeSize < binadeSize := by omega
  have hle : 2 * binadeSize ≤ k * binadeSize + m := by
    have := Nat.mul_le_mul_right binadeSize hk
    omega
  rw [unitsOfCode, if_neg (Nat.not_lt.2 hle), hbinade, Nat.add_mul_mod_self_right,
    Nat.add_mul_div_right _ _ binadeSize_pos, Nat.mod_eq_of_lt hlt, Nat.div_eq_of_lt hlt,
    Nat.add_sub_cancel' hlow, Nat.zero_add, Nat.add_sub_cancel]
  rfl

/-- A code in the third binade or above it. -/
theorem code_eq_add {c : Nat} (h : 2 * binadeSize ≤ c) :
    ∃ k m, 0 < k ∧ binadeSize ≤ m ∧ m < 2 * binadeSize ∧ c = k * binadeSize + m := by
  have hdiv : 2 ≤ c / binadeSize := (Nat.le_div_iff_mul_le binadeSize_pos).2 h
  have hmod := Nat.mod_lt c binadeSize_pos
  refine ⟨c / binadeSize - 1, binadeSize + c % binadeSize, by omega, by omega, by omega, ?_⟩
  have hc := Nat.div_add_mod c binadeSize
  obtain ⟨q, hq⟩ : ∃ q, c / binadeSize = q + 1 := ⟨c / binadeSize - 1, by omega⟩
  rw [hq] at hc ⊢
  rw [Nat.add_sub_cancel]
  rw [Nat.mul_succ, Nat.mul_comm] at hc
  omega

/-- Rounding the units of a code gives the code back. -/
theorem nearestCode_unitsOfCode {c : Nat} (h : c ≤ infinityCode) :
    nearestCode (unitsOfCode c) 1 = c := by
  by_cases hc : c < 2 * binadeSize
  · rw [unitsOfCode_of_lt hc, nearestCode_one_of_lt hc]
  · obtain ⟨k, m, hk, hlow, hhigh, rfl⟩ := code_eq_add (Nat.not_lt.1 hc)
    rw [unitsOfCode_add hk hlow hhigh, nearestCode_eq, doublings_mul_two_pow hlow hhigh,
      roundQuotient_mul_left m (Nat.two_pow_pos k)]
    exact Nat.min_eq_right h

/-- Different codes have different units. -/
theorem unitsOfCode_inj {c c' : Nat} (h : c ≤ infinityCode) (h' : c' ≤ infinityCode)
    (heq : unitsOfCode c = unitsOfCode c') : c = c' :=
  calc c = nearestCode (unitsOfCode c) 1 := (nearestCode_unitsOfCode h).symm
    _ = nearestCode (unitsOfCode c') 1 := by rw [heq]
    _ = c' := nearestCode_unitsOfCode h'

/-- A number that is a multiple of the step at its size is not changed by
    rounding, below the overflow threshold. -/
theorem unitsOfCode_nearestCode {n : Nat} (hstep : 2 ^ doublings n ∣ n)
    (hfinite : nearestCode n 1 < infinityCode) : unitsOfCode (nearestCode n 1) = n := by
  by_cases hn : n < 2 * binadeSize
  · rw [nearestCode_one_of_lt hn, unitsOfCode_of_lt hn]
  · have hlow := two_pow_doublings_le (Nat.not_lt.1 hn)
    have hhigh := lt_two_pow_doublings n
    rw [nearestCode_eq] at hfinite ⊢
    generalize doublings n = k at *
    have hpos := Nat.two_pow_pos k
    have hk : 0 < k := Nat.pos_of_ne_zero fun hk => by
      subst hk
      omega
    -- The step divides the number, so there is nothing to round.
    obtain ⟨m, rfl⟩ := hstep
    rw [Nat.mul_comm (2 ^ k)] at hlow hhigh hfinite ⊢
    rw [roundQuotient_mul_left m hpos] at hfinite ⊢
    rw [Nat.min_eq_right (by omega),
      unitsOfCode_add hk (Nat.le_of_mul_le_mul_right hlow hpos) (Nat.lt_of_mul_lt_mul_right hhigh)]

/-- The units of a code are a multiple of the step at their size. -/
theorem two_pow_doublings_dvd_unitsOfCode (c : Nat) :
    2 ^ doublings (unitsOfCode c) ∣ unitsOfCode c := by
  by_cases hc : c < 2 * binadeSize
  · rw [unitsOfCode_of_lt hc, doublings_of_lt hc]
    exact Nat.one_dvd c
  · obtain ⟨k, m, hk, hlow, hhigh, rfl⟩ := code_eq_add (Nat.not_lt.1 hc)
    rw [unitsOfCode_add hk hlow hhigh, doublings_mul_two_pow hlow hhigh]
    exact Nat.dvd_mul_left _ _

/-! ## The binade of a quotient -/

section binade
variable {num den : Nat}

theorem lt_binade (num : Nat) (hden : 0 < den) :
    num < 2 * binadeSize * (den * 2 ^ doublings (num / den)) := by
  have hlt := lt_two_pow_doublings (num / den)
  rw [Nat.div_lt_iff_lt_mul hden] at hlt
  rwa [Nat.mul_comm den, ← Nat.mul_assoc]

theorem binade_le (num : Nat) (hden : 0 < den) (h : 0 < doublings (num / den)) :
    binadeSize * (den * 2 ^ doublings (num / den)) ≤ num := by
  have hlarge : 2 * binadeSize ≤ num / den := Nat.le_of_not_lt fun hlt => by
    rw [doublings_of_lt hlt] at h
    exact Nat.lt_irrefl 0 h
  have hle := two_pow_doublings_le hlarge
  rw [Nat.le_div_iff_mul_le hden] at hle
  rwa [Nat.mul_comm den, ← Nat.mul_assoc]

/-- The significand that a quotient is rounded to, before it is cut off at infinity. -/
def roundedSignificand (num den : Nat) : Nat :=
  roundQuotient num (den * 2 ^ doublings (num / den))

theorem nearestCode_eq_min (num den : Nat) :
    nearestCode num den =
      min infinityCode (doublings (num / den) * binadeSize + roundedSignificand num den) := rfl

theorem roundedSignificand_le (num : Nat) (hden : 0 < den) :
    roundedSignificand num den ≤ 2 * binadeSize :=
  roundQuotient_le (Nat.mul_pos hden (Nat.two_pow_pos _)) (Nat.le_of_lt (lt_binade num hden))

theorem le_roundedSignificand (num : Nat) (hden : 0 < den) (h : 0 < doublings (num / den)) :
    binadeSize ≤ roundedSignificand num den :=
  calc binadeSize ≤ num / (den * 2 ^ doublings (num / den)) :=
        (Nat.le_div_iff_mul_le (Nat.mul_pos hden (Nat.two_pow_pos _))).2 (binade_le num hden h)
    _ ≤ roundedSignificand num den := div_le_roundQuotient _ _

/-- A greater number is not rounded to a smaller code. -/
theorem nearestCode_mono_num {m n : Nat} (hden : 0 < den) (h : m ≤ n) :
    nearestCode m den ≤ nearestCode n den := by
  rw [nearestCode_eq_min, nearestCode_eq_min]
  suffices h : doublings (m / den) * binadeSize + roundedSignificand m den ≤
      doublings (n / den) * binadeSize + roundedSignificand n den by omega
  obtain hlt | heq := Nat.lt_or_eq_of_le (doublings_mono (Nat.div_le_div_right h))
  · -- the greater number lies in a later binade
    have hround := roundedSignificand_le m hden
    have hround' := le_roundedSignificand n hden (Nat.lt_of_le_of_lt (Nat.zero_le _) hlt)
    have hmul := Nat.mul_le_mul_right binadeSize (Nat.succ_le_of_lt hlt)
    rw [Nat.succ_mul] at hmul
    omega
  · unfold roundedSignificand
    rw [heq]
    exact Nat.add_le_add_left (roundQuotient_mono _ h) _

end binade

/-! ## Overflow -/

/-- A greater number of units has no smaller code. -/
theorem nearestCode_mono {m n : Nat} (h : m ≤ n) : nearestCode m 1 ≤ nearestCode n 1 :=
  nearestCode_mono_num Nat.one_pos h

/-- A greater code has more units. -/
theorem unitsOfCode_lt {c c' : Nat} (h : c < c') (hc : c' ≤ infinityCode) :
    unitsOfCode c < unitsOfCode c' := Nat.lt_of_not_le fun hle => by
  have hmono := nearestCode_mono hle
  rw [nearestCode_unitsOfCode hc,
    nearestCode_unitsOfCode (Nat.le_trans (Nat.le_of_lt h) hc)] at hmono
  omega

/-- Nothing up to the greatest finite double is rounded to infinity. -/
theorem nearestCode_lt_infinityCode {n c : Nat} (hn : n ≤ unitsOfCode c) (hc : c < infinityCode) :
    nearestCode n 1 < infinityCode :=
  calc nearestCode n 1 ≤ nearestCode (unitsOfCode c) 1 := nearestCode_mono hn
    _ = c := nearestCode_unitsOfCode (Nat.le_of_lt hc)
    _ < infinityCode := hc

end Binary64

end Calculator
