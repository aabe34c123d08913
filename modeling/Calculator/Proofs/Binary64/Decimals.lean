import Mathlib.Algebra.Field.Rat
import Calculator.Proofs.Binary64.Nearby

/-! # The double nearest to a decimal

    `ofDecimal` takes two shortcuts, for decimals that are certainly beyond the
    greatest double and for those that are certainly nearer to zero than to the
    least one. They change nothing: in all cases the number of units is rounded
    once (`ofDecimal_eq`). So the double depends on the number that is denoted
    and not on how it is split into a significand and a power of ten
    (`ofDecimal_congr`).
-/

namespace Calculator.Binary64

/-! ## The two shortcuts -/

theorem nearestCode_zero {den : Nat} (hden : 0 < den) : nearestCode 0 den = 0 := by
  have hstep : 0 < den * 2 ^ 0 := Nat.mul_pos hden Nat.one_pos
  have hbinade : 0 < 2 * binadeSize * (den * 2 ^ 0) :=
    Nat.mul_pos (Nat.mul_pos (by decide) binadeSize_pos) hstep
  rw [nearestCode_of_binade (m := 0) hden (.inl rfl) hbinade (by omega) (by omega), Nat.zero_mul]
  exact Nat.min_eq_right (Nat.zero_le _)

/-- What is less than half a unit is rounded to zero. -/
theorem nearestCode_of_small {num den : Nat} (h : 2 * num < den) : nearestCode num den = 0 := by
  have hden : 0 < den := by omega
  have hle : den ≤ 2 * binadeSize * (den * 2 ^ 0) := by
    rw [Nat.pow_zero, Nat.mul_one]
    exact Nat.le_mul_of_pos_left den (Nat.mul_pos (by decide) binadeSize_pos)
  rw [nearestCode_of_binade (m := 0) hden (.inl rfl) (by omega) (by omega) (by omega),
    Nat.zero_mul]
  exact Nat.min_eq_right (Nat.zero_le _)

/-- From `2 ^ 1024` on everything is rounded to infinity. -/
theorem nearestCode_of_large {n k : Nat} (hk : 2046 ≤ k) (h : binadeSize * 2 ^ k ≤ n) :
    nearestCode n 1 = infinityCode := by
  have hB := binadeSize_pos
  have hdoublings : k ≤ doublings n := by
    have hmono := doublings_mono h
    rwa [doublings_mul_two_pow (Nat.le_refl _) (by omega)] at hmono
  have hpow : 2 ≤ 2 ^ k := Nat.le_self_pow (by omega) 2
  have hlarge : 2 * binadeSize ≤ n :=
    calc 2 * binadeSize = binadeSize * 2 := Nat.mul_comm ..
      _ ≤ binadeSize * 2 ^ k := Nat.mul_le_mul_left _ hpow
      _ ≤ n := h
  have hround : binadeSize ≤ roundQuotient n (2 ^ doublings n) :=
    Nat.le_trans ((Nat.le_div_iff_mul_le (Nat.two_pow_pos _)).2 (two_pow_doublings_le hlarge))
      (div_le_roundQuotient _ _)
  have hmul := Nat.mul_le_mul_right binadeSize (Nat.le_trans hk hdoublings)
  rw [nearestCode_eq]
  refine Nat.min_eq_left ?_
  show 2047 * binadeSize ≤ _
  omega

/-- From `10 ^ 310` on everything is beyond the greatest double. -/
theorem le_ten_pow_units {n : Nat} (h : 310 ≤ n) :
    ∃ k, 2046 ≤ k ∧ binadeSize * 2 ^ k ≤ Nat.pow 10 n * unitsPerOne := by
  have hleast : binadeSize * Nat.pow 2 2046 ≤ Nat.pow 10 310 * unitsPerOne := by decide +kernel
  generalize hk : 2046 = k at *
  generalize 310 = m at *
  have hmono : Nat.pow 10 m ≤ Nat.pow 10 n := Nat.pow_le_pow_right (by decide) h
  exact ⟨k, Nat.le_refl k, Nat.le_trans hleast (Nat.mul_le_mul_right _ hmono)⟩

/-- The bits of a decimal bound its number of units from above. -/
theorem two_mul_units_lt {m j : Nat} (h : m.log2 + 1 + 1075 ≤ 3 * j) :
    2 * (m * unitsPerOne) < 10 ^ j := by
  obtain ⟨k, hk, hone⟩ : ∃ k, k + 1 = 1075 ∧ unitsPerOne = 2 ^ k := by
    unfold unitsPerOne
    generalize hk : 1074 = k
    exact ⟨k, by omega, rfl⟩
  calc 2 * (m * unitsPerOne) = m * 2 ^ (k + 1) := by
        rw [hone, Nat.mul_left_comm, Nat.pow_succ, Nat.mul_comm 2]
    _ < 2 ^ (m.log2 + 1) * 2 ^ (k + 1) :=
      Nat.mul_lt_mul_of_pos_right Nat.lt_log2_self (Nat.two_pow_pos _)
    _ = 2 ^ (m.log2 + 1 + (k + 1)) := (Nat.pow_add ..).symm
    _ ≤ 2 ^ (3 * j) := Nat.pow_le_pow_right (by decide) (by omega)
    _ = 8 ^ j := Nat.pow_mul ..
    _ ≤ 10 ^ j := Nat.pow_le_pow_left (by decide) j

/-! ## Decimals -/

theorem ten_pow_pos (k : Nat) : 0 < Nat.pow 10 k := Nat.pow_pos (by decide)

theorem ofDecimal_eq (m : Nat) (e : Int) :
    ofDecimal m e =
      nearest false (m * Nat.pow 10 e.toNat * unitsPerOne) (Nat.pow 10 (-e).toNat) := by
  have hone {i : Int} (h : i ≤ 0) : Nat.pow 10 i.toNat = 1 := by
    rw [Int.toNat_of_nonpos h]
  unfold ofDecimal nearest infinity
  by_cases hm : m = 0
  · rw [if_pos hm, hm, Nat.zero_mul, Nat.zero_mul, nearestCode_zero (ten_pow_pos _)]
  · rw [if_neg hm]
    by_cases he : 0 ≤ e
    · rw [hone (by omega : -e ≤ 0), if_pos he]
      by_cases hlarge : 310 ≤ e
      · obtain ⟨k, hk, hle⟩ := le_ten_pow_units (n := e.toNat) (by omega)
        have hmul : Nat.pow 10 e.toNat ≤ m * Nat.pow 10 e.toNat :=
          Nat.le_mul_of_pos_left _ (Nat.pos_of_ne_zero hm)
        rw [if_pos hlarge,
          nearestCode_of_large hk (Nat.le_trans hle (Nat.mul_le_mul_right unitsPerOne hmul))]
      · rw [if_neg hlarge]
    · rw [hone (by omega : e ≤ 0), Nat.mul_one, if_neg (by omega), if_neg he]
      by_cases hsmall : (m.log2 : Int) + 1 + 3 * e ≤ -1075
      · have hhalf : 2 * (m * unitsPerOne) < Nat.pow 10 (-e).toNat := two_mul_units_lt (by omega)
        rw [if_pos hsmall, nearestCode_of_small hhalf]
      · rw [if_neg hsmall]

theorem ten_zpow_eq (e : Int) :
    (10 : ℚ) ^ e = (Nat.pow 10 e.toNat : Nat) / (Nat.pow 10 (-e).toNat : Nat) := by
  obtain ⟨k, rfl | rfl⟩ := e.eq_nat_or_neg
  · simp [Int.toNat_of_nonpos]
  · simp [Int.toNat_of_nonpos]

/-- The double depends on the number that the decimal denotes. -/
theorem ofDecimal_congr {m m' : Nat} {e e' : Int}
    (h : (m : ℚ) * 10 ^ e = (m' : ℚ) * 10 ^ e') : ofDecimal m e = ofDecimal m' e' := by
  have hne (k : Nat) : ((Nat.pow 10 k : Nat) : ℚ) ≠ 0 :=
    Nat.cast_ne_zero.2 (Nat.ne_of_gt (ten_pow_pos k))
  rw [ten_zpow_eq, ten_zpow_eq, ← mul_div_assoc, ← mul_div_assoc, div_eq_div_iff (hne _) (hne _)]
    at h
  norm_cast at h
  rw [ofDecimal_eq, ofDecimal_eq, nearest, nearest]
  refine congrArg (ofCode false) (nearestCode_congr (ten_pow_pos _) (ten_pow_pos _) ?_)
  rw [Nat.mul_right_comm, h, Nat.mul_right_comm]

end Calculator.Binary64
