import Calculator.Proofs.Binary64.Units

/-! # What is rounded to a double

    Everything that is closer to a double than half a step, or a quarter of it
    below the first double of a binade, is rounded to that double
    (`nearestCode_of_close`). Rounding depends on the number that is rounded and
    not on the fraction that it is written as (`nearestCode_congr`).
-/

namespace Calculator

/-! ## Rounding a quotient -/

/-- A quotient that is closer than a half to a whole number is rounded to it. -/
theorem roundQuotient_of_close {num den m : Nat} (hlow : 2 * (m * den) < 2 * num + den)
    (hhigh : 2 * num < 2 * (m * den) + den) : roundQuotient num den = m := by
  have hsplit := Nat.div_add_mod' num den
  by_cases hle : m * den ≤ num
  · have hfloor : num / den = m := Nat.div_eq_of_lt_le hle (by rw [Nat.succ_mul]; omega)
    rw [hfloor] at hsplit
    unfold roundQuotient
    dsimp only
    rw [if_pos (by omega), hfloor]
  · -- The quotient lies below the whole number, by less than a half.
    obtain ⟨k, rfl⟩ : ∃ k, m = k + 1 := Nat.exists_eq_succ_of_ne_zero (by rintro rfl; omega)
    rw [Nat.succ_mul k] at hlow hhigh hle
    have hfloor : num / den = k :=
      Nat.div_eq_of_lt_le (by omega) (by rw [Nat.succ_mul]; omega)
    rw [hfloor] at hsplit
    unfold roundQuotient
    dsimp only
    rw [if_neg (by omega), if_pos (by omega), hfloor]

/-- A quotient is rounded by no more than a half. -/
theorem roundQuotient_error (num : Nat) {den : Nat} (hden : 0 < den) :
    2 * (roundQuotient num den * den) ≤ 2 * num + den ∧
      2 * num ≤ 2 * (roundQuotient num den * den) + den := by
  have hsplit := Nat.div_add_mod' num den
  have hlt := Nat.mod_lt num hden
  have hsucc : (num / den + 1) * den = num / den * den + den := Nat.succ_mul ..
  unfold roundQuotient
  dsimp only
  split
  · omega
  · split
    · omega
    · -- exactly half way, either neighbour will do
      obtain h | h := Nat.mod_two_eq_zero_or_one (num / den)
      · rw [h, Nat.add_zero]
        omega
      · rw [h]
        omega

/-- Rounding depends on the quotient alone. -/
theorem roundQuotient_mul_mul {k : Nat} (num den : Nat) (hk : 0 < k) :
    roundQuotient (k * num) (k * den) = roundQuotient num den := by
  have hrest : 2 * (k * (num % den)) = k * (2 * (num % den)) := Nat.mul_left_comm 2 k _
  unfold roundQuotient
  rw [Nat.mul_div_mul_left _ _ hk, Nat.mul_mod_mul_left, hrest]
  simp only [Nat.mul_lt_mul_left hk]

namespace Binary64

theorem nearestCode_mul_mul {k : Nat} (num den : Nat) (hk : 0 < k) :
    nearestCode (k * num) (k * den) = nearestCode num den := by
  rw [nearestCode, Nat.mul_div_mul_left _ _ hk, Nat.mul_assoc, roundQuotient_mul_mul _ _ hk,
    nearestCode]

/-- Equal fractions are rounded to the same double. -/
theorem nearestCode_congr {num den num' den' : Nat} (hden : 0 < den) (hden' : 0 < den')
    (h : num * den' = num' * den) : nearestCode num den = nearestCode num' den' :=
  calc nearestCode num den = nearestCode (den' * num) (den' * den) :=
        (nearestCode_mul_mul num den hden').symm
    _ = nearestCode (den * num') (den * den') := by
      rw [Nat.mul_comm den', h, Nat.mul_comm num', Nat.mul_comm den']
    _ = nearestCode num' den' := nearestCode_mul_mul num' den' hden

/-! ## Doublings of a number in a binade -/

theorem doublings_eq {n k : Nat} (hlow : k = 0 ∨ binadeSize * 2 ^ k ≤ n)
    (hhigh : n < 2 * binadeSize * 2 ^ k) : doublings n = k := by
  refine Nat.le_antisymm ?_ ?_
  · by_cases hn : n < 2 * binadeSize
    · rw [doublings_of_lt hn]
      exact Nat.zero_le k
    · have hle := two_pow_doublings_le (Nat.not_lt.1 hn)
      have hlt : binadeSize * 2 ^ doublings n < binadeSize * 2 ^ (k + 1) := by
        rw [Nat.pow_succ, Nat.mul_comm (2 ^ k), ← Nat.mul_assoc, Nat.mul_comm binadeSize 2]
        exact Nat.lt_of_le_of_lt hle hhigh
      have hpow := (Nat.pow_lt_pow_iff_right (by decide)).1 (Nat.lt_of_mul_lt_mul_left hlt)
      exact Nat.le_of_lt_succ hpow
  · obtain rfl | hle := hlow
    · exact Nat.zero_le _
    · have hmono := doublings_mono hle
      have hpos := binadeSize_pos
      rwa [doublings_mul_two_pow (Nat.le_refl _) (by omega)] at hmono

/-- A code is given by the doublings and the significand of its units. -/
theorem exists_significand (c : Nat) :
    ∃ k m, m < 2 * binadeSize ∧ (k = 0 ∨ binadeSize ≤ m) ∧ c = k * binadeSize + m ∧
      unitsOfCode c = m * 2 ^ k ∧ doublings (unitsOfCode c) = k := by
  by_cases hc : c < 2 * binadeSize
  · refine ⟨0, c, hc, .inl rfl, by omega, by rw [unitsOfCode_of_lt hc]; omega, ?_⟩
    rw [unitsOfCode_of_lt hc, doublings_of_lt hc]
  · obtain ⟨k, m, hk, hlow, hhigh, rfl⟩ := code_eq_add (Nat.not_lt.1 hc)
    have hunits := unitsOfCode_add hk hlow hhigh
    exact ⟨k, m, hhigh, .inr hlow, rfl, hunits, by rw [hunits, doublings_mul_two_pow hlow hhigh]⟩

/-! ## Quotients close to a double -/

/-- The floor of a quotient that lies in a binade lies there too. -/
theorem doublings_div {num den k : Nat} (hden : 0 < den)
    (hlow : k = 0 ∨ binadeSize * (den * 2 ^ k) ≤ num)
    (hhigh : num < 2 * binadeSize * (den * 2 ^ k)) : doublings (num / den) = k := by
  have hscale (x : Nat) : x * (den * 2 ^ k) = x * 2 ^ k * den := by
    rw [Nat.mul_comm den, Nat.mul_assoc]
  rw [hscale] at hlow hhigh
  exact doublings_eq (hlow.imp_right (Nat.le_div_iff_mul_le hden).2)
    ((Nat.div_lt_iff_lt_mul hden).2 hhigh)

/-- What lies in a binade is rounded to a multiple of the step there. -/
theorem nearestCode_of_binade {num den k m : Nat} (hden : 0 < den)
    (hfrom : k = 0 ∨ binadeSize * (den * 2 ^ k) ≤ num)
    (hto : num < 2 * binadeSize * (den * 2 ^ k))
    (hlow : 2 * (m * (den * 2 ^ k)) < 2 * num + den * 2 ^ k)
    (hhigh : 2 * num < 2 * (m * (den * 2 ^ k)) + den * 2 ^ k) :
    nearestCode num den = min infinityCode (k * binadeSize + m) := by
  have hround : roundQuotient num (den * Nat.pow 2 k) = m := roundQuotient_of_close hlow hhigh
  rw [nearestCode, step, doublings_div hden hfrom hto, hround]

/-- The first double of a binade is the end of the binade below. -/
theorem nearestCode_of_edge {num den k : Nat} (hden : 0 < den)
    (hbelow : num < binadeSize * (den * 2 ^ (k + 1)))
    (hedge : 4 * (binadeSize * (den * 2 ^ (k + 1))) < 4 * num + den * 2 ^ (k + 1)) :
    nearestCode num den = min infinityCode ((k + 1) * binadeSize + binadeSize) := by
  have hstep : den * 2 ^ (k + 1) = 2 * (den * 2 ^ k) := by
    rw [Nat.pow_succ]
    ac_rfl
  have hend : binadeSize * (2 * (den * 2 ^ k)) = 2 * binadeSize * (den * 2 ^ k) := by ac_rfl
  have hpos : 0 < den * 2 ^ k := Nat.mul_pos hden (Nat.two_pow_pos k)
  have hbinade : 2 * binadeSize * (den * 2 ^ k) = 2 * (binadeSize * (den * 2 ^ k)) :=
    Nat.mul_assoc ..
  have hle : den * 2 ^ k ≤ binadeSize * (den * 2 ^ k) :=
    Nat.le_mul_of_pos_left _ binadeSize_pos
  have hcode : (k + 1) * binadeSize + binadeSize = k * binadeSize + 2 * binadeSize := by
    rw [Nat.succ_mul, Nat.two_mul, Nat.add_assoc]
  rw [hstep, hend] at hbelow hedge
  rw [hcode]
  exact nearestCode_of_binade hden (.inr (by omega)) hbelow (by omega) (by omega)

/-- What is closer to a double than half a step is rounded to it. Below the first
    double of a binade the step is half as long. -/
theorem nearestCode_of_close {c num den : Nat} (hc : c ≤ infinityCode) (hden : 0 < den)
    (hlow : 2 * (unitsOfCode c * den) < 2 * num + den * 2 ^ doublings (unitsOfCode c))
    (hhigh : 2 * num < 2 * (unitsOfCode c * den) + den * 2 ^ doublings (unitsOfCode c))
    (hedge : unitsOfCode c = binadeSize * 2 ^ doublings (unitsOfCode c) →
      4 * (unitsOfCode c * den) < 4 * num + den * 2 ^ doublings (unitsOfCode c)) :
    nearestCode num den = c := by
  obtain ⟨k, m, hm, hkm, hcode, hunits, hk⟩ := exists_significand c
  have hscale (x : Nat) : x * 2 ^ k * den = x * (den * 2 ^ k) := by
    rw [Nat.mul_assoc, Nat.mul_comm (2 ^ k)]
  rw [hk, hunits, hscale] at hlow hhigh hedge
  refine Eq.trans ?_ (Nat.min_eq_right hc)
  rw [hcode]
  have hto : num < 2 * binadeSize * (den * 2 ^ k) := by
    have hle := Nat.mul_le_mul_right (den * 2 ^ k) (Nat.succ_le_of_lt hm)
    rw [Nat.succ_mul] at hle
    omega
  by_cases hfrom : k = 0 ∨ binadeSize * (den * 2 ^ k) ≤ num
  · exact nearestCode_of_binade hden hfrom hto hlow hhigh
  · -- Only below the first double of a binade the number lies in another one.
    obtain ⟨hk0, hbelow⟩ := not_or.1 hfrom
    have hfirst : m = binadeSize := by
      refine Nat.le_antisymm (Nat.le_of_not_lt fun hlt => hbelow ?_) (hkm.resolve_left hk0)
      have hle := Nat.mul_le_mul_right (den * 2 ^ k) (Nat.succ_le_of_lt hlt)
      rw [Nat.succ_mul] at hle
      omega
    subst hfirst
    obtain ⟨j, rfl⟩ := Nat.exists_eq_succ_of_ne_zero hk0
    exact nearestCode_of_edge hden (Nat.not_le.1 hbelow) (hedge rfl)

end Binary64

end Calculator
