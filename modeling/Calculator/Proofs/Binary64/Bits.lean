import Calculator.Binary64.Basic

/-! # The bits of a double

    A double is a sign, a biased exponent and a mantissa. The operations of
    `Float` unpack these fields and pack them again. `unpack_eq` says what the
    fields of given bits are unpacked to, and `toNat_pack_ofFields` that packing
    restores the bits of everything but a NaN.
-/

namespace Calculator.Binary64

open Float.Model (Format)
open Float.Model.UnpackedFloat

theorem binadeSize_pos : 0 < binadeSize := by decide

theorem signPlace_eq : signPlace = 2048 * binadeSize := by decide

/-- The sign of a double whose sign bit is given. -/
def signOf (negative : Bool) : Sign := if negative then .negative else .positive

/-- The sign bit as a number. -/
def signBit (negative : Bool) : Nat := if negative then 1 else 0

/-! ## The fields -/

theorem toNat_unpackMantissa (b : BitVec 64) :
    (@unpackMantissa Format.binary64 b).toNat = b.toNat % binadeSize := by
  show (b.toNat >>> 0) % _ = _
  rfl

theorem toNat_unpackExponent (b : BitVec 64) :
    (@unpackExponent Format.binary64 b).toNat = b.toNat / binadeSize % 2048 := by
  show (b.toNat >>> 52) % _ = _
  rw [Nat.shiftRight_eq_div_pow]
  rfl

theorem ofBitVec_unpackSign (b : BitVec 64) :
    Sign.ofBitVec (@unpackSign Format.binary64 b) = signOf (decide (signPlace ≤ b.toNat)) := by
  have htop : (@unpackSign Format.binary64 b).toNat = b.toNat / signPlace % 2 := by
    show (b.toNat >>> 63) % _ = _
    rw [Nat.shiftRight_eq_div_pow]
    rfl
  have hlt : b.toNat / signPlace < 2 := Nat.div_lt_of_lt_mul b.isLt
  have hzero : @unpackSign Format.binary64 b = 0#1 ↔ b.toNat < signPlace := by
    rw [← BitVec.toNat_inj, htop, Nat.mod_eq_of_lt hlt]
    exact Nat.div_eq_zero_iff_lt (by decide)
  unfold Sign.ofBitVec signOf
  by_cases hs : signPlace ≤ b.toNat
  · rw [if_neg fun h => Nat.not_lt.2 hs (hzero.1 h), decide_eq_true hs]
    rfl
  · rw [if_pos (hzero.2 (Nat.not_le.1 hs)), decide_eq_false hs]
    rfl

theorem toNat_packComponents (negative : Bool) (e : BitVec 11) (m : BitVec 52) :
    (packComponents Format.binary64 (signOf negative) e m).toNat =
      signBit negative * signPlace + (e.toNat * binadeSize + m.toNat) := by
  have hsign : (signOf negative).toBitVec.toNat = signBit negative := by cases negative <;> rfl
  -- Each field is shifted past the ones below it, which fit into the places that it leaves.
  unfold packComponents
  rw [BitVec.toNat_append, BitVec.toNat_append, hsign, Nat.shiftLeft_eq, Nat.shiftLeft_eq,
    Nat.mul_comm _ (2 ^ 11), ← Nat.two_pow_add_eq_or_of_lt e.isLt, Nat.mul_comm _ (2 ^ 52),
    ← Nat.two_pow_add_eq_or_of_lt m.isLt]
  show 2 ^ 52 * (2 ^ 11 * signBit negative + e.toNat) + m.toNat =
    signBit negative * 2 ^ 63 + (e.toNat * 2 ^ 52 + m.toNat)
  omega

/-! ## Unpacking -/

/-- The double with a given sign, biased exponent and mantissa. -/
def ofFields (s : Sign) (e m : Nat) : Float.Model.UnpackedFloat :=
  if e = 2047 then if m = 0 then .infinity s else .notANumber
  else if e = 0 then if h : m = 0 then .zero s else .finite s m (-1074) (Nat.pos_of_ne_zero h)
  else .finite s (binadeSize + m) ((e : Int) - 1075) (Nat.add_pos_left binadeSize_pos m)

theorem finite_congr {s : Sign} {m m' : Nat} {e e' : Int} {pos : 0 < m} {pos' : 0 < m'}
    (hm : m = m') (he : e = e') :
    (.finite s m e pos : Float.Model.UnpackedFloat) = .finite s m' e' pos' := by
  subst hm he
  rfl

theorem unpack_eq (b : BitVec 64) :
    unpack Format.binary64 b =
      ofFields (signOf (decide (signPlace ≤ b.toNat))) (b.toNat / binadeSize % 2048)
        (b.toNat % binadeSize) := by
  unfold unpack ofFields
  dsimp only
  rw [ofBitVec_unpackSign, ← toNat_unpackMantissa, ← toNat_unpackExponent]
  have he (n : BitVec 11) :
      @unpackExponent Format.binary64 b = n ↔ (@unpackExponent Format.binary64 b).toNat = n.toNat :=
    BitVec.toNat_inj.symm
  have hm (n : BitVec 52) :
      @unpackMantissa Format.binary64 b = n ↔ (@unpackMantissa Format.binary64 b).toNat = n.toNat :=
    BitVec.toNat_inj.symm
  -- The greatest exponent and the least one are read in their own way.
  by_cases hinf : (@unpackExponent Format.binary64 b).toNat = 2047
  · rw [if_pos ((he (-1#11)).2 hinf), if_pos hinf]
    by_cases hzero : (@unpackMantissa Format.binary64 b).toNat = 0
    · rw [if_pos ((hm 0#52).2 hzero), if_pos hzero]
    · rw [if_neg fun h => hzero ((hm 0#52).1 h), if_neg hzero]
  · rw [if_neg fun h => hinf ((he (-1#11)).1 h), if_neg hinf]
    by_cases hsub : (@unpackExponent Format.binary64 b).toNat = 0
    · rw [if_pos ((he 0#11).2 hsub), if_pos hsub]
      by_cases hzero : (@unpackMantissa Format.binary64 b).toNat = 0
      · rw [dif_pos ((hm 0#52).2 hzero), dif_pos hzero]
      · rw [dif_neg fun h => hzero ((hm 0#52).1 h), dif_neg hzero, hsub]
        rfl
    · rw [if_neg fun h => hsub ((he 0#11).1 h), if_neg hsub]
      refine finite_congr ?_ rfl
      -- the implicit bit stands above the mantissa
      rw [BitVec.toNat_append, ← Nat.shiftLeft_add_eq_or_of_lt (BitVec.isLt _)]
      rfl

/-! ## Packing -/

/-- Packing a finite double whose mantissa is in range. The exponent is given by
    the number of times that the step between neighbours has doubled. -/
theorem toNat_pack_finite (negative : Bool) {m k : Nat} (pos : 0 < m) (hm : m < 2 * binadeSize)
    (hk : k ≤ 2045) (hcanonical : k = 0 ∨ binadeSize ≤ m) :
    (pack Format.binary64 (.finite (signOf negative) m ((k : Int) - 1074) pos)).toNat =
      signBit negative * signPlace + (k * binadeSize + m) := by
  have hbiased : ((k : Int) - 1074 + (Format.binary64.exponentBias : Int) +
      (Format.binary64.mantissaBitsWithoutImplicit : Int)).toNat = k + 1 := by
    show ((k : Int) - 1074 + 1023 + 52).toNat = k + 1
    omega
  unfold pack
  dsimp only
  rw [hbiased, if_neg (show ¬ 2048 ≤ k + 1 + 1 by omega)]
  have hB : binadeSize = 2 ^ 52 := rfl
  by_cases hnormal : binadeSize ≤ m
  · -- With 53 bits the leading one is left out, and the biased exponent is `k + 1`.
    have hlog : m.log2 + 1 = Format.binary64.mantissaBits := by
      show m.log2 + 1 = 53
      rw [(Nat.log2_eq_iff (Nat.ne_of_gt pos)).2 ⟨hnormal, hm⟩]
    have hexponent : (k + 1) % 2 ^ 11 = k + 1 := Nat.mod_eq_of_lt (by omega)
    have hmantissa : m % 2 ^ 52 + binadeSize = m := by
      rw [hB] at hm hnormal ⊢
      omega
    rw [if_pos hlog, toNat_packComponents, BitVec.toNat_ofNat, BitVec.toNat_ofNat, hexponent,
      Nat.succ_mul]
    omega
  · -- With fewer bits the biased exponent is `0`, and the mantissa is kept.
    have hlog : ¬ m.log2 + 1 = Format.binary64.mantissaBits := by
      show ¬ m.log2 + 1 = 53
      have := (Nat.log2_lt (k := 52) (Nat.ne_of_gt pos)).2 (Nat.not_le.1 hnormal)
      omega
    obtain rfl | h := hcanonical
    · have hmantissa : m % 2 ^ 52 = m := Nat.mod_eq_of_lt (Nat.not_le.1 hnormal)
      rw [if_neg hlog, toNat_packComponents, BitVec.toNat_ofNat, BitVec.toNat_ofNat, hmantissa,
        Nat.zero_mod]
    · exact absurd h hnormal

/-- Packing restores the fields of everything but a NaN. -/
theorem toNat_pack_ofFields (negative : Bool) {e m : Nat} (he : e < 2048) (hm : m < binadeSize)
    (hnan : e = 2047 → m = 0) :
    (pack Format.binary64 (ofFields (signOf negative) e m)).toNat =
      signBit negative * signPlace + (e * binadeSize + m) := by
  unfold ofFields
  by_cases hinf : e = 2047
  · rw [if_pos hinf, if_pos (hnan hinf), hinf, hnan hinf]
    exact toNat_packComponents ..
  · rw [if_neg hinf]
    by_cases hsub : e = 0
    · rw [if_pos hsub, hsub]
      by_cases hzero : m = 0
      · rw [dif_pos hzero, hzero]
        exact toNat_packComponents ..
      · rw [dif_neg hzero]
        exact toNat_pack_finite (k := 0) negative (Nat.pos_of_ne_zero hzero) (by omega) (by omega)
          (.inl rfl)
    · obtain ⟨k, rfl⟩ := Nat.exists_eq_succ_of_ne_zero hsub
      rw [if_neg hsub]
      have hk : ((k.succ : Nat) : Int) - 1075 = (k : Int) - 1074 := by omega
      have hfinite := toNat_pack_finite negative (k := k) (m := binadeSize + m)
        (Nat.add_pos_left binadeSize_pos m) (by omega) (by omega) (.inr (by omega))
      rw [hk, hfinite, Nat.succ_mul]
      omega

/-! ## Packing and unpacking -/

/-- Only the greatest biased exponent stands for a double that is not finite. -/
theorem isFinite_ofFields {s : Sign} {e m : Nat} (he : e ≠ 2047) :
    (ofFields s e m).isFinite = true := by
  rw [ofFields, if_neg he]
  by_cases hsub : e = 0
  · rw [if_pos hsub]
    by_cases hzero : m = 0
    · rw [dif_pos hzero]
      rfl
    · rw [dif_neg hzero]
      rfl
  · rw [if_neg hsub]
    rfl

theorem isFinite_packComponents {s : Sign} {e : BitVec 11} {m : BitVec 52} (he : e ≠ -1#11) :
    (unpack Format.binary64 (packComponents Format.binary64 s e m)).isFinite = true := by
  rw [unpack_eq, ← toNat_unpackExponent, unpackExponent_packComponents]
  exact isFinite_ofFields fun h => he (BitVec.toNat_inj.1 h)

theorem isFinite_pack_finite {s : Sign} {m : Nat} {e : Int} (pos : 0 < m) (he : e ≤ 971) :
    (unpack Format.binary64 (pack Format.binary64 (.finite s m e pos))).isFinite = true := by
  have hbiased : (e + (Format.binary64.exponentBias : Int) +
      (Format.binary64.mantissaBitsWithoutImplicit : Int)).toNat < 2047 := by
    show (e + 1023 + 52).toNat < 2047
    omega
  unfold pack
  dsimp only
  generalize (e + (Format.binary64.exponentBias : Int) +
    (Format.binary64.mantissaBitsWithoutImplicit : Int)).toNat = biased at *
  rw [if_neg (show ¬ 2048 ≤ biased + 1 by omega)]
  split
  · refine isFinite_packComponents fun h => ?_
    have hnat : biased % 2 ^ 11 = 2047 := congrArg BitVec.toNat h
    omega
  · exact isFinite_packComponents (by decide)

/-- A double that is packed is a NaN only if it was one. -/
theorem isNaN_pack (u : Float.Model.UnpackedFloat) :
    (unpack Format.binary64 (pack Format.binary64 u)).isNaN = u.isNaN := by
  have hnot {v : Float.Model.UnpackedFloat} (h : v.isFinite = true) : v.isNaN = false := by
    cases v <;> first | rfl | cases h
  have hinfinity (s : Sign) : (unpack Format.binary64 (packedInfinity Format.binary64 s)).isNaN =
      false := by cases s <;> decide
  cases u with
  | notANumber => decide
  | infinity s => exact hinfinity s
  | zero s => exact hnot (isFinite_packComponents (by decide))
  | finite s m e pos =>
    by_cases he : e ≤ 971
    · exact hnot (isFinite_pack_finite pos he)
    · have hbiased : 2048 ≤ (e + (Format.binary64.exponentBias : Int) +
          (Format.binary64.mantissaBitsWithoutImplicit : Int)).toNat + 1 := by
        show 2048 ≤ (e + 1023 + 52).toNat + 1
        omega
      have hpack : pack Format.binary64 (.finite s m e pos) = packedInfinity Format.binary64 s := by
        unfold pack
        exact if_pos hbiased
      rw [hpack]
      exact hinfinity s

end Calculator.Binary64
