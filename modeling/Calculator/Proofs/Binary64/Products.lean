import Calculator.Proofs.Binary64.Closest
import Calculator.Proofs.Binary64.Root
import Calculator.Proofs.Binary64.Whole

/-! # Products are rounded once

    The product of two finite doubles is the double nearest to their exact product
    (`mul_eq`), and a product with an infinity is infinite (`mul_eq_infinity`). The
    multiplication of `Float` keeps the two bits below the mantissa, the second of
    which stands for all bits that were dropped (`Keeps`). So what it rounds to is the
    quotient rounded to the nearest whole number, and the code that it packs is the
    one that `nearestCode` counts (`toNat_pack_round`).
-/

namespace Calculator.Binary64

open Float.Model (UnpackedFloat Format totalExponent)
open Float.Model.UnpackedFloat

/-! ## The bits below the mantissa -/

/-- The mantissa is the whole part of `num / den`. The bits below it say whether the
    rest is at least a half, and whether it is neither nothing nor just a half. -/
structure Keeps (em : ExtendedMantissa) (num den : Nat) : Prop where
  mantissa : em.mantissa = num / den
  round : em.roundBit = true ↔ den ≤ 2 * (num % den)
  sticky : em.stickyBit = true ↔ num % den ≠ 0 ∧ 2 * (num % den) ≠ den

theorem keeps_exact (m : Nat) : Keeps (.ofMantissaAndAccuracy m .exact) m 1 where
  mantissa := (Nat.div_one m).symm
  round := by simp [ExtendedMantissa.ofMantissaAndAccuracy, Nat.mod_one]
  sticky := by simp [ExtendedMantissa.ofMantissaAndAccuracy, Nat.mod_one]

/-- Half of a quotient: the last bit of its whole part is the first one of the rest. -/
theorem Keeps.shiftRightOne {em : ExtendedMantissa} {num den : Nat} (h : Keeps em num den)
    (hden : 0 < den) : Keeps em.shiftRightOne num (den * 2) := by
  have hlt := Nat.mod_lt num hden
  have hrest : num % (den * 2) = num % den + den * (num / den % 2) := Nat.mod_mul
  have hround := h.round
  have hsticky := h.sticky
  generalize num % den = r at *
  refine ⟨?_, ?_, ?_⟩
  · rw [← Nat.div_div_eq_div_mul, ← h.mantissa]
    rfl
  · show (em.mantissa % 2 != 0) = true ↔ _
    rw [hrest, h.mantissa, bne_iff_ne]
    obtain hbit | hbit := Nat.mod_two_eq_zero_or_one (num / den) <;> rw [hbit] <;> omega
  · show (em.roundBit || em.stickyBit) = true ↔ _
    rw [hrest, Bool.or_eq_true, hround, hsticky]
    obtain hbit | hbit := Nat.mod_two_eq_zero_or_one (num / den) <;> rw [hbit] <;> omega

theorem keeps_shiftRight (m k : Nat) :
    Keeps (ExtendedMantissa.ofMantissaAndAccuracy m .exact >>> k) m (2 ^ k) := by
  induction k with
  | zero => exact keeps_exact m
  | succ k ih => exact ih.shiftRightOne (Nat.two_pow_pos k)

/-- The mantissa is rounded as the quotient is. -/
theorem Keeps.roundedMantissa {em : ExtendedMantissa} {num den : Nat} (h : Keeps em num den) :
    em.roundedMantissa = roundQuotient num den := by
  obtain ⟨m, round, sticky⟩ := em
  obtain ⟨hmantissa, hround, hsticky⟩ := h
  dsimp only at hmantissa hround hsticky
  subst hmantissa
  unfold roundQuotient
  dsimp only
  cases round with
  | false =>
    have hlow : 2 * (num % den) < den := by simpa using hround
    rw [if_pos hlow]
    cases sticky <;> rfl
  | true =>
    have hhigh : den ≤ 2 * (num % den) := by simpa using hround
    rw [if_neg (Nat.not_lt.2 hhigh)]
    cases sticky with
    | false =>
      have hhalf : ¬ den < 2 * (num % den) := by
        have := mt hsticky.2 Bool.false_ne_true
        omega
      rw [if_neg hhalf]
      rfl
    | true =>
      have hhalf : den < 2 * (num % den) := by
        have := hsticky.1 rfl
        omega
      rw [if_pos hhalf]
      rfl

/-! ## The code of a rounded double -/

/-- Packing counts the doubles in order of magnitude, and stops at infinity. -/
theorem toNat_pack_significand (s : Bool) {m k : Nat} (pos : 0 < m) (hm : m < 2 * binadeSize)
    (hcanonical : k = 0 ∨ binadeSize ≤ m) :
    (pack Format.binary64 (.finite (signOf s) m ((k : Int) - 1074) pos)).toNat =
      signBit s * signPlace + min infinityCode (k * binadeSize + m) := by
  have hinfinity : infinityCode = 2047 * binadeSize := rfl
  have hsize := binadeSize_pos
  by_cases hk : k ≤ 2045
  · have hle := Nat.mul_le_mul_right binadeSize hk
    rw [toNat_pack_finite s pos hm hk hcanonical, Nat.min_eq_right (by omega)]
  · have hle := Nat.mul_le_mul_right binadeSize (Nat.succ_le_of_lt (Nat.not_le.1 hk))
    have hbiased : 2048 ≤ ((k : Int) - 1074 + (Format.binary64.exponentBias : Int) +
        (Format.binary64.mantissaBitsWithoutImplicit : Int)).toNat + 1 := by
      show 2048 ≤ ((k : Int) - 1074 + 1023 + 52).toNat + 1
      omega
    have hpack : pack Format.binary64 (.finite (signOf s) m ((k : Int) - 1074) pos) =
        packedInfinity Format.binary64 (signOf s) := if_pos hbiased
    rw [hpack, Nat.min_eq_left (by omega)]
    exact toNat_packComponents ..

/-- How many bits of a mantissa are below the step at its size. -/
def droppedBits (m : Nat) (e : Int) : Nat := (max ((m.log2 : Int) + e - 52) (-1074) - e).toNat

theorem shiftToTargetExponent_exact (m : Nat) (e : Int) :
    shiftToTargetExponent Format.binary64 m e .exact =
      (ExtendedMantissa.ofMantissaAndAccuracy m .exact >>> droppedBits m e,
        e + droppedBits m e) := by
  have hbits : (Format.binary64.targetExponent (totalExponent m e) - e).toNat =
      droppedBits m e := by
    rw [targetExponent_eq, droppedBits, totalExponent]
    omega
  unfold shiftToTargetExponent shiftToExponent
  dsimp only
  rw [hbits]

/-- Rounding carries into one more bit at most, and that is the only one that is shifted
    out again. -/
theorem droppedBits_rounded {r d : Nat} (hr : r ≤ 2 * binadeSize) :
    droppedBits r ((d : Int) - 1074) = if r < 2 * binadeSize then 0 else 1 := by
  unfold droppedBits
  split
  · next hlt =>
    have hlog : r.log2 < 53 := by
      by_cases hzero : r = 0
      · subst hzero
        decide
      · exact (Nat.log2_lt hzero).2 hlt
    omega
  · next hge =>
    obtain rfl : r = 2 * binadeSize := Nat.le_antisymm hr (Nat.not_lt.1 hge)
    have hlog : (2 * binadeSize).log2 = 53 := by decide
    omega

/-- The code of what a significand is rounded to. -/
theorem toNat_pack_roundWithAccuracy (s : Bool) {m d : Nat} {e : Int}
    (hexponent : (d : Int) - 1074 = e + droppedBits m e)
    (hle : roundQuotient m (2 ^ droppedBits m e) ≤ 2 * binadeSize)
    (hcanonical : d = 0 ∨ binadeSize ≤ roundQuotient m (2 ^ droppedBits m e)) :
    (pack Format.binary64 (roundWithAccuracy Format.binary64 (signOf s) m e .exact)).toNat =
      signBit s * signPlace +
        min infinityCode (d * binadeSize + roundQuotient m (2 ^ droppedBits m e)) := by
  have hsize := binadeSize_pos
  rw [roundWithAccuracy_eq _ (shiftToTargetExponent_exact m e) rfl]
  dsimp only
  rw [(keeps_shiftRight m _).roundedMantissa, ← hexponent]
  generalize roundQuotient m (2 ^ droppedBits m e) = r at *
  rw [shiftToTargetExponent_exact]
  dsimp only
  rw [(keeps_shiftRight r _).mantissa, droppedBits_rounded hle]
  by_cases hzero : r = 0
  · obtain rfl : d = 0 := hcanonical.resolve_right (by omega)
    rw [dif_pos (by rw [hzero, Nat.zero_div]), hzero, Nat.zero_mul]
    exact toNat_packComponents ..
  · by_cases hlt : r < 2 * binadeSize
    · have hnot : ¬ r / 2 ^ 0 = 0 := by rwa [Nat.pow_zero, Nat.div_one]
      rw [if_pos hlt, dif_neg hnot, ← toNat_pack_significand s (Nat.pos_of_ne_zero hzero) hlt
        hcanonical]
      exact congrArg (fun u => (pack Format.binary64 u).toNat)
        (finite_congr (Nat.div_one r) (Int.add_zero _))
    · -- the carry leaves a single bit, in the next binade
      obtain rfl : r = 2 * binadeSize := Nat.le_antisymm hle (Nat.not_lt.1 hlt)
      have hhalf : 2 * binadeSize / 2 ^ 1 = binadeSize := by omega
      have hcarry : d * binadeSize + 2 * binadeSize = (d + 1) * binadeSize + binadeSize := by
        rw [Nat.succ_mul d]
        omega
      have hnot : ¬ 2 * binadeSize / 2 ^ 1 = 0 := by omega
      rw [if_neg hlt, dif_neg hnot, hcarry, ← toNat_pack_significand s hsize (by omega)
        (.inr (Nat.le_refl _))]
      exact congrArg (fun u => (pack Format.binary64 u).toNat)
        (finite_congr hhalf (by push_cast; omega))

/-- Rounding `m · 2 ^ i` by `2 ^ p` units gives the nearest double. There have to be
    53 bits, unless the step is the least one. -/
theorem toNat_pack_round (s : Bool) {m i p : Nat} (hm : 0 < m)
    (hbits : 52 ≤ m.log2 ∨ (i : Int) - p - 1074 ≤ -1074) :
    (pack Format.binary64
      (roundWithAccuracy Format.binary64 (signOf s) m ((i : Int) - p - 1074) .exact)).toNat =
        signBit s * signPlace + nearestCode (m * 2 ^ i) (2 ^ p) := by
  generalize he : (i : Int) - p - 1074 = e at *
  generalize hk : droppedBits m e = k
  unfold droppedBits at hk
  -- The step at the size of the quotient has doubled `d` times.
  obtain ⟨d, hd⟩ : ∃ d : Nat, (d : Int) - 1074 = e + k := ⟨(e + k + 1074).toNat, by omega⟩
  have hsum : p + d = k + i := by omega
  have hscale : 2 ^ p * 2 ^ d = 2 ^ k * 2 ^ i := by rw [← Nat.pow_add, hsum, Nat.pow_add]
  have hhigh : m * 2 ^ i < 2 * binadeSize * (2 ^ p * 2 ^ d) := by
    rw [hscale, ← Nat.mul_assoc]
    refine Nat.mul_lt_mul_of_pos_right ?_ (Nat.two_pow_pos i)
    calc m < 2 ^ (m.log2 + 1) := Nat.lt_log2_self
      _ ≤ 2 ^ (53 + k) := Nat.pow_le_pow_right (by decide) (by omega)
      _ = 2 * binadeSize * 2 ^ k := Nat.pow_add ..
  have hlow : d = 0 ∨ binadeSize * (2 ^ p * 2 ^ d) ≤ m * 2 ^ i := by
    refine (Nat.eq_zero_or_pos d).imp_right fun hpos => ?_
    rw [hscale, ← Nat.mul_assoc]
    refine Nat.mul_le_mul_right _ ?_
    calc binadeSize * 2 ^ k = 2 ^ (52 + k) := (Nat.pow_add ..).symm
      _ ≤ 2 ^ m.log2 := Nat.pow_le_pow_right (by decide) (by omega)
      _ ≤ m := Nat.log2_self_le (Nat.ne_of_gt hm)
  have hdoublings := doublings_div (Nat.two_pow_pos p) hlow hhigh
  have hround : roundedSignificand (m * 2 ^ i) (2 ^ p) = roundQuotient m (2 ^ k) := by
    rw [roundedSignificand, hdoublings, hscale, Nat.mul_comm m, Nat.mul_comm (2 ^ k),
      roundQuotient_mul_mul _ _ (Nat.two_pow_pos i)]
  have hle := roundedSignificand_le (m * 2 ^ i) (Nat.two_pow_pos p)
  have hcanonical := le_roundedSignificand (m * 2 ^ i) (Nat.two_pow_pos p)
  rw [hdoublings] at hcanonical
  rw [nearestCode_eq_min, hdoublings]
  rw [hround] at hle hcanonical ⊢
  subst hk
  exact toNat_pack_roundWithAccuracy s hd hle ((Nat.eq_zero_or_pos d).imp_right hcanonical)

/-! ## Products -/

section products
variable {x y : Float} {s t : Bool} {m n : Nat}

theorem signOf_mul (s t : Bool) : signOf s * signOf t = signOf (s != t) := by
  cases s <;> cases t <;> rfl

/-- A product is packed from the product of what its factors are unpacked to. -/
theorem mul_eq_ofCode {c : Nat} (hc : c ≤ infinityCode)
    (h : (pack Format.binary64 (UnpackedFloat.mul Format.binary64 x.toModel.unpack
      y.toModel.unpack)).toNat = signBit s * signPlace + c) : x * y = ofCode s c := by
  have hbits : (x * y).toBits.toNat = (ofCode s c).toBits.toNat := by
    rw [toNat_ofCode s hc]
    exact h
  exact eq_of_code_eq (by rw [code, code, hbits]) (by rw [negative, negative, hbits])

/-- The product of two finite doubles is the double nearest to the exact one. -/
theorem mul_eq (hx : form x = .finite s m) (hy : form y = .finite t n) :
    x * y = nearest (s != t) (m * n) unitsPerOne := by
  refine mul_eq_ofCode (Nat.min_le_left _ _) ?_
  have hunpacks := unpacks x
  have hunpacks' := unpacks y
  rw [hx] at hunpacks
  rw [hy] at hunpacks'
  generalize x.toModel.unpack = u at *
  generalize y.toModel.unpack = v at *
  have hzero : (packComponents Format.binary64 (signOf (s != t)) 0 0).toNat =
      signBit (s != t) * signPlace + nearestCode 0 unitsPerOne := by
    rw [nearestCode_zero unitsPerOne_pos]
    exact toNat_packComponents ..
  rw [← signOf_mul] at hzero
  cases hunpacks with
  | zero =>
    rw [Nat.zero_mul, ← hzero]
    cases hunpacks' <;> rfl
  | @finite _ m k pos _ _ canonical =>
    cases hunpacks' with
    | zero =>
      rw [Nat.mul_zero, ← hzero]
      rfl
    | @finite _ m' k' pos' _ _ canonical' =>
      obtain ⟨p, hp, hone⟩ : ∃ p : Nat, (p : Int) = 1074 ∧ unitsPerOne = 2 ^ p := by
        unfold unitsPerOne
        generalize hp : 1074 = p
        exact ⟨p, by omega, rfl⟩
      have hunits : m * 2 ^ k * (m' * 2 ^ k') = m * m' * 2 ^ (k + k') := by
        rw [Nat.pow_add]
        ac_rfl
      have hexponent : (k : Int) - 1074 + ((k' : Int) - 1074) =
          ((k + k' : Nat) : Int) - p - 1074 := by
        omega
      -- One of the factors has 53 bits, or both have the least step.
      have hbits : 52 ≤ (m * m').log2 ∨ ((k + k' : Nat) : Int) - p - 1074 ≤ -1074 := by
        have hpos := Nat.mul_pos pos pos'
        have hleft : m ≤ m * m' := Nat.le_mul_of_pos_right m pos'
        have hright : m' ≤ m * m' := Nat.le_mul_of_pos_left m' pos
        have hlog (h : binadeSize ≤ m * m') : 52 ≤ (m * m').log2 :=
          (Nat.le_log2 (Nat.ne_of_gt hpos)).2 h
        obtain hk | hm := canonical
        · obtain hk' | hm' := canonical'
          · exact .inr (by omega)
          · exact .inl (hlog (Nat.le_trans hm' hright))
        · exact .inl (hlog (Nat.le_trans hm hleft))
      have hround := toNat_pack_round (s != t) (Nat.mul_pos pos pos') hbits
      rw [← hexponent, ← signOf_mul] at hround
      rw [hunits, hone]
      exact hround

/-- A double of the given sign that is neither a zero nor a NaN. -/
def Form.IsNonzero (s : Bool) (f : Form) : Prop := f = .infinite s ∨ ∃ n, f = .finite s n ∧ n ≠ 0

theorem unpack_of_infinite (h : form x = .infinite s) :
    x.toModel.unpack = .infinity (signOf s) := by
  have hunpacks := unpacks x
  rw [h] at hunpacks
  generalize x.toModel.unpack = u at *
  cases hunpacks
  rfl

theorem unpack_of_nonzero (h : (form x).IsNonzero s) :
    x.toModel.unpack = .infinity (signOf s) ∨
      ∃ m e pos, x.toModel.unpack = .finite (signOf s) m e pos := by
  obtain h | ⟨n, h, hn⟩ := h
  · exact .inl (unpack_of_infinite h)
  · right
    have hunpacks := unpacks x
    rw [h] at hunpacks
    generalize x.toModel.unpack = u at *
    cases hunpacks with
    | zero => exact absurd rfl hn
    | finite _ pos => exact ⟨_, _, pos, rfl⟩

/-- The product with an infinity is infinite, unless the other factor is a zero or a NaN. -/
theorem mul_eq_infinity (hx : (form x).IsNonzero s) (hy : (form y).IsNonzero t)
    (h : form x = .infinite s ∨ form y = .infinite t) : x * y = infinity (s != t) := by
  have hmul : UnpackedFloat.mul Format.binary64 x.toModel.unpack y.toModel.unpack =
      .infinity (signOf s * signOf t) := by
    obtain h | h := h
    · rw [unpack_of_infinite h]
      obtain h | ⟨m, e, pos, h⟩ := unpack_of_nonzero hy <;> rw [h] <;> rfl
    · rw [unpack_of_infinite h]
      obtain h | ⟨m, e, pos, h⟩ := unpack_of_nonzero hx <;> rw [h] <;> rfl
  refine mul_eq_ofCode (Nat.le_refl _) ?_
  rw [hmul, signOf_mul]
  exact toNat_packComponents ..

end products

end Calculator.Binary64
