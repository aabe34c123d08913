import Calculator.Proofs.Binary64.Forms

/-! # The square root neither fails nor overflows

    The square root of a double that is not below `0` is a NaN only if the
    double is one, and infinite only if it is infinite (`sqrt_of_not_lt_zero`). The
    second fact is a bound on the exponent of the rounded root: rounding raises the
    exponent of the precise root by one at most.
-/

namespace Calculator.Binary64

open Float.Model (UnpackedFloat Format totalExponent)
open Float.Model.UnpackedFloat

/-! ## Rounding -/

theorem targetExponent_eq (total : Int) :
    Format.binary64.targetExponent total = max (total - 53) (-1074) := rfl

theorem mantissa_shiftRight (m : ExtendedMantissa) (k : Nat) :
    (m >>> k).mantissa = m.mantissa / 2 ^ k := by
  induction k with
  | zero => exact (Nat.div_one _).symm
  | succ k ih =>
    show (m >>> k).mantissa / 2 = _
    rw [ih, Nat.div_div_eq_div_mul, Nat.pow_succ]

theorem mantissa_ofMantissaAndAccuracy (m : Nat) (a : Accuracy) :
    (ExtendedMantissa.ofMantissaAndAccuracy m a).mantissa = m := by
  rcases a with _ | (_ | _ | _) <;> rfl

theorem roundedMantissa_le (m : ExtendedMantissa) : m.roundedMantissa ≤ m.mantissa + 1 := by
  obtain ⟨m, r, s⟩ := m
  -- What `simp` leaves is the tie, which is rounded to the even neighbour.
  cases r <;> cases s <;>
    simp [ExtendedMantissa.roundedMantissa, ExtendedMantissa.accuracy,
      Accuracy.roundToNearestEven]
  omega

/-- Shifting to the target exponent drops bits of the mantissa only. -/
theorem shiftToTargetExponent_eq (m : Nat) (e : Int) (a : Accuracy) :
    ∃ k : Nat, (k : Int) = max 0 (max (totalExponent m e - 53) (-1074) - e) ∧
      (shiftToTargetExponent Format.binary64 m e a).1.mantissa = m / 2 ^ k ∧
      (shiftToTargetExponent Format.binary64 m e a).2 = e + k := by
  refine ⟨(max (totalExponent m e - 53) (-1074) - e).toNat, by omega, ?_, rfl⟩
  unfold shiftToTargetExponent shiftToExponent
  rw [mantissa_shiftRight, mantissa_ofMantissaAndAccuracy, targetExponent_eq]

/-! ## The exponent of a rounded double -/

theorem log2_div_two_pow_le (m k : Nat) : (m / 2 ^ k).log2 ≤ m.log2 - k := by
  by_cases hzero : m / 2 ^ k = 0
  · rw [hzero]
    exact Nat.zero_le _
  · have hm : m ≠ 0 := fun h => hzero (by rw [h, Nat.zero_div])
    have hle : 2 ^ ((m / 2 ^ k).log2 + k) ≤ m := by
      rw [Nat.pow_add]
      exact Nat.le_trans (Nat.mul_le_mul_right _ (Nat.log2_self_le hzero)) (Nat.div_mul_le_self m _)
    exact Nat.le_sub_of_add_le ((Nat.le_log2 hm).2 hle)

theorem log2_le_succ {r m : Nat} (h : r ≤ m + 1) : r.log2 ≤ m.log2 + 1 := by
  by_cases hzero : r = 0
  · rw [hzero]
    exact Nat.zero_le _
  · refine Nat.le_of_lt_succ ((Nat.log2_lt hzero).2 ?_)
    have hm := Nat.lt_log2_self (n := m)
    rw [Nat.pow_succ]
    omega

/-- Rounding shifts, rounds the mantissa and shifts again. -/
theorem roundWithAccuracy_eq (s : Sign) {m : Nat} {e : Int} {a : Accuracy}
    {shifted again : ExtendedMantissa × Int}
    (hshifted : shiftToTargetExponent Format.binary64 m e a = shifted)
    (hagain : shiftToTargetExponent Format.binary64 shifted.1.roundedMantissa shifted.2 .exact =
      again) :
    roundWithAccuracy Format.binary64 s m e a =
      if h : again.1.mantissa = 0 then .zero s
      else .finite s again.1.mantissa again.2 (Nat.pos_of_ne_zero h) := by
  subst hshifted hagain
  rfl

/-- A rounded double is a zero, or its exponent is that of the precise value up to
    one. -/
theorem roundWithAccuracy_exponent (s : Sign) (m : Nat) (e : Int) (a : Accuracy) :
    roundWithAccuracy Format.binary64 s m e a = .zero s ∨
      ∃ m' e' pos, roundWithAccuracy Format.binary64 s m e a = .finite s m' e' pos ∧
        e' ≤ max e (max (totalExponent m e - 52) (-1074)) := by
  obtain ⟨k, hk, hmantissa, hexponent⟩ := shiftToTargetExponent_eq m e a
  have hrounded := roundedMantissa_le (shiftToTargetExponent Format.binary64 m e a).1
  have hround := roundWithAccuracy_eq s rfl (m := m) (e := e) (a := a) rfl
  generalize shiftToTargetExponent Format.binary64 m e a = shifted at *
  -- Rounding may carry into one more bit, so the result is shifted again.
  obtain ⟨k', hk', -, hexponent'⟩ :=
    shiftToTargetExponent_eq shifted.1.roundedMantissa shifted.2 .exact
  generalize shiftToTargetExponent Format.binary64 shifted.1.roundedMantissa shifted.2 .exact =
    again at *
  by_cases hzero : again.1.mantissa = 0
  · exact .inl (hround.trans (dif_pos hzero))
  · refine .inr ⟨_, _, Nat.pos_of_ne_zero hzero, hround.trans (dif_neg hzero), ?_⟩
    have hlog := log2_le_succ hrounded
    have hlog' := log2_div_two_pow_le m k
    rw [hmantissa] at hlog
    rw [hexponent']
    unfold totalExponent at *
    omega

/-! ## The root -/

/-- A root has half of the bits. -/
theorem log2_sqrt_le {n b : Nat} (h : n < 2 ^ (b + 1)) : 2 * n.sqrt.log2 ≤ b := by
  by_cases hzero : n.sqrt = 0
  · rw [hzero]
    exact Nat.zero_le _
  · refine Nat.le_of_lt_succ ((Nat.pow_lt_pow_iff_right (a := 2) (by decide)).1 ?_)
    calc 2 ^ (2 * n.sqrt.log2) = 2 ^ n.sqrt.log2 * 2 ^ n.sqrt.log2 := by
          rw [Nat.two_mul, Nat.pow_add]
      _ ≤ n.sqrt * n.sqrt :=
          Nat.mul_le_mul (Nat.log2_self_le hzero) (Nat.log2_self_le hzero)
      _ ≤ n := n.sqrt_le
      _ < 2 ^ (b + 1) := h

/-- The exponent of the root of a finite double, before it is rounded. -/
theorem sqrtCore_exponent {m k : Nat} (hm : m < 2 * binadeSize) (hk : k ≤ 2045) :
    ∃ root e a, sqrtCore Format.binary64 m ((k : Int) - 1074) = (root, e, a) ∧
      e ≤ 485 ∧ totalExponent root e ≤ 512 := by
  have hhalf : ((k : Int) - 1074).ediv 2 = ((k : Int) - 1074) / 2 := rfl
  refine ⟨_, _, _, rfl, ?_⟩
  -- The exponent of the root is half of that of the argument, or less.
  generalize ht : min (((k : Int) - 1074).ediv 2) (Format.binary64.targetExponent
    ((totalExponent m ((k : Int) - 1074) + 1).ediv 2)) = t
  have hle : 2 * t ≤ (k : Int) - 1074 := by omega
  refine ⟨by omega, ?_⟩
  -- The shifted mantissa has `53 + s` bits at most, and its root half as many.
  generalize hs : ((k : Int) - 1074 - 2 * t).toNat = s
  have hlt : m <<< s < 2 ^ (52 + s + 1) := by
    rw [Nat.shiftLeft_eq, show 52 + s + 1 = 53 + s by omega, Nat.pow_add]
    exact Nat.mul_lt_mul_of_pos_right hm (Nat.two_pow_pos s)
  have hlog := log2_sqrt_le hlt
  unfold totalExponent
  omega

/-- The root of a double that is neither a NaN nor below `0` is not a NaN, and
    that of a finite one is finite. -/
theorem sqrt_of_not_lt_zero {x : Float} (hx : ¬ x < 0) :
    x.sqrt.isNaN = x.isNaN ∧ (x.isFinite = true → x.sqrt.isFinite = true) := by
  have h := unpacks x
  rw [lt_zero_iff] at hx
  have hnan : x.sqrt.isNaN = (UnpackedFloat.sqrt Format.binary64 x.toModel.unpack).isNaN :=
    isNaN_pack _
  rw [hnan]
  show _ = x.toModel.unpack.isNaN ∧ (x.toModel.unpack.isFinite = true →
    (unpack Format.binary64 (pack Format.binary64
      (UnpackedFloat.sqrt Format.binary64 x.toModel.unpack))).isFinite = true)
  generalize form x = f at *
  generalize x.toModel.unpack = u at *
  cases h with
  | nan => exact ⟨rfl, fun h => nomatch h⟩
  | infinite negative =>
    cases negative
    · exact ⟨rfl, fun h => nomatch h⟩
    · exact absurd rfl hx
  | zero negative => exact ⟨rfl, fun _ => isFinite_packComponents (by decide)⟩
  | @finite negative m k pos small bound =>
    cases negative
    · -- The precise root lies far below the overflow threshold, and rounding adds one bit.
      obtain ⟨root, e, a, hcore, he, htotal⟩ := sqrtCore_exponent small bound
      have hsqrt : UnpackedFloat.sqrt Format.binary64
          (.finite (signOf false) m ((k : Int) - 1074) pos) =
            roundWithAccuracy Format.binary64 .positive root e a := by
        show (match sqrtCore Format.binary64 m ((k : Int) - 1074) with
          | (m, e, a) => roundWithAccuracy Format.binary64 .positive m e a) = _
        rw [hcore]
      rw [hsqrt]
      obtain hround | ⟨m', e', pos', hround, he'⟩ :=
        roundWithAccuracy_exponent .positive root e a
      · rw [hround]
        exact ⟨rfl, fun _ => isFinite_packComponents (by decide)⟩
      · rw [hround]
        exact ⟨rfl, fun _ => isFinite_pack_finite pos' (by omega)⟩
    · have hpos := Nat.mul_pos pos (Nat.two_pow_pos k)
      exact absurd (by simpa [Form.isBelowZero] using Nat.ne_of_gt hpos) hx

end Calculator.Binary64
