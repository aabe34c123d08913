import Calculator.Proofs.Binary64.Closest
import Calculator.Proofs.Binary64.Whole

/-! # The numbers of doubles

    Which doubles stand for an integer, and for which one, is a statement about
    their numbers (`whole?_eq_some_iff`), however large these are. Doubles of a
    positive sign are ordered as their codes are (`le_of_code_le`).
-/

namespace Calculator.Binary64

open Float.Model (UnpackedFloat)

variable {x y : Float}

/-! ## Doubles by their forms -/

theorem exists_form_of_isFinite (h : x.isFinite = true) :
    ∃ s n, form x = .finite s n := by
  rw [isFinite_eq] at h
  cases hform : form x with
  | finite s n => exact ⟨s, n, rfl⟩
  | nan | infinite =>
    rw [hform] at h
    cases h

theorem exists_form_of_isInf (h : x.isInf = true) : ∃ s, form x = .infinite s := by
  rw [isInf_eq] at h
  cases hform : form x with
  | infinite s => exact ⟨s, rfl⟩
  | nan | finite =>
    rw [hform] at h
    cases h

theorem isFinite_eq_false_iff : x.isFinite = false ↔ x.isNaN = true ∨ x.isInf = true := by
  rw [isFinite_eq, isNaN_eq, isInf_eq]
  cases form x <;> simp [Form.isFinite, Form.isNaN, Form.isInfinite]

theorem isInf_iff : x.isInf = true ↔ code x = infinityCode := by
  rw [isInf_eq]
  unfold form
  split
  · next hlt => exact iff_of_false nofun (Nat.ne_of_lt hlt)
  · split
    · next heq => exact iff_of_true rfl heq
    · next hne => exact iff_of_false nofun hne

theorem isInf_withSign (s : Bool) : (withSign s x).isInf = true ↔ x.isInf = true := by
  constructor
  · intro h
    obtain hgt | hle := Nat.lt_or_ge infinityCode (code x)
    · rw [isInf_eq, withSign, form_ofCode_nan s hgt (Nat.mod_lt _ (by decide))] at h
      cases h
    · rw [isInf_iff, withSign, code_ofCode s hle] at h
      exact isInf_iff.2 h
  · intro h
    rw [withSign, isInf_iff, isInf_iff.1 h]
    exact code_ofCode s (Nat.le_refl _)

section finite
variable {s : Bool} {n : Nat}

theorem isFinite_of_form (h : form x = .finite s n) : x.isFinite = true := by
  rw [isFinite_eq, h]
  rfl

theorem isFinite_of_zero (h : (x == 0) = true) : x.isFinite = true := by
  rw [beq_zero_eq] at h
  rw [isFinite_eq]
  generalize form x = f at *
  cases f <;> first | rfl | cases h

theorem beq_zero_of_form (h : form x = .finite s n) : (x == 0) = (n == 0) := by
  rw [beq_zero_eq, h]
  rfl

theorem lt_zero_of_form (h : form x = .finite s n) : x < 0 ↔ s = true ∧ n ≠ 0 := by
  rw [lt_zero_iff, h, Form.isBelowZero, Bool.and_eq_true, bne_iff_ne]

end finite

/-! ## Numbers -/

theorem exists_form_of_toRat? {v : ℚ} (h : toRat? x = some v) :
    ∃ s n, form x = .finite s n ∧ v = signedUnits s n / 2 ^ 1074 := by
  unfold toRat? at h
  split at h
  · next s n hform => exact ⟨s, n, hform, (Option.some.inj h).symm⟩
  · cases h

theorem toRat?_eq {s : Bool} {n : Nat} (h : form x = .finite s n) :
    toRat? x = some (signedUnits s n / 2 ^ 1074 : ℚ) := by
  rw [toRat?, h]

theorem isFinite_of_toRat? {v : ℚ} (h : toRat? x = some v) : x.isFinite = true := by
  obtain ⟨s, n, hform, -⟩ := exists_form_of_toRat? h
  exact isFinite_of_form hform

/-! ## Integers -/

theorem signedUnits_mul (s : Bool) (m u : Nat) : signedUnits s (m * u) = signedUnits s m * u := by
  cases s <;> simp [signedUnits]

theorem natAbs_signedUnits (s : Bool) (n : Nat) : (signedUnits s n).natAbs = n := by
  cases s <;> simp [signedUnits]

/-- The units of an integer. -/
theorem signedUnits_eq_mul_iff {s : Bool} {n u : Nat} {k : ℤ} (hu : 0 < u) :
    signedUnits s n = k * u ↔ n % u = 0 ∧ signedUnits s (n / u) = k := by
  have hne : (u : ℤ) ≠ 0 := by omega
  constructor
  · intro h
    have hn : n = k.natAbs * u := by
      rw [← natAbs_signedUnits s n, h, Int.natAbs_mul, Int.natAbs_natCast]
    rw [hn, Nat.mul_mod_left, Nat.mul_div_cancel _ hu]
    rw [hn, signedUnits_mul] at h
    exact ⟨rfl, mul_right_cancel₀ hne h⟩
  · rintro ⟨hmod, rfl⟩
    rw [← signedUnits_mul, Nat.div_mul_cancel (Nat.dvd_of_mod_eq_zero hmod)]

/-- A double has a whole-number value if it stands for an integer, and it is that one. -/
theorem whole?_eq_some_iff {k : ℤ} : whole? x = some k ↔ toRat? x = some (k : ℚ) := by
  unfold whole?
  cases h : form x with
  | nan | infinite => simp [toRat?, h]
  | finite s n =>
    have hpos : (0 : ℚ) < unitsPerOne := Nat.cast_pos.2 unitsPerOne_pos
    have hunits := signedUnits_eq_mul_iff (s := s) (n := n) (k := k) unitsPerOne_pos
    rw [toRat?_eq h, Option.some_inj, ← cast_unitsPerOne, div_eq_iff hpos.ne',
      ← Int.cast_natCast unitsPerOne, ← Int.cast_mul, Int.cast_inj, hunits]
    dsimp only
    by_cases hwhole : n % unitsPerOne = 0
    · rw [if_pos hwhole, Option.some_inj]
      exact (and_iff_right hwhole).symm
    · rw [if_neg hwhole]
      exact iff_of_false (Option.some_ne_none k).symm fun h => hwhole h.1

/-- A finite double that stands for no integer. -/
def HasFraction (x : Float) : Prop := ∃ v, toRat? x = some v ∧ ∀ k : ℤ, v ≠ k

/-- A double that stands for an odd integer. -/
def IsOddInteger (x : Float) : Prop := ∃ k : ℤ, toRat? x = some ((2 * k + 1 : ℤ) : ℚ)

theorem isOdd_iff : isOdd x = true ↔ IsOddInteger x := by
  have hodd (k : ℤ) : k % 2 = 1 ↔ ∃ j, k = 2 * j + 1 := ⟨fun h => ⟨k / 2, by omega⟩, by omega⟩
  unfold isOdd IsOddInteger
  rw [Option.any_eq_true]
  simp only [decide_eq_true_eq, hodd, ← whole?_eq_some_iff]
  constructor
  · rintro ⟨-, h, k, rfl⟩
    exact ⟨k, h⟩
  · rintro ⟨k, h⟩
    exact ⟨_, h, k, rfl⟩

theorem whole?_eq_none_iff :
    whole? x = none ↔ x.isFinite = false ∨ HasFraction x := by
  constructor
  · intro hnone
    cases h : form x with
    | nan | infinite => exact .inl (by rw [isFinite_eq, h]; rfl)
    | finite s n =>
      refine .inr ⟨_, toRat?_eq h, fun k hk => ?_⟩
      rw [whole?_eq_some_iff.2 (hk ▸ toRat?_eq h)] at hnone
      cases hnone
  · intro h
    refine Option.eq_none_iff_forall_not_mem.2 fun k hk => ?_
    have hvalue := whole?_eq_some_iff.1 hk
    obtain hinfinite | ⟨v, hv, hne⟩ := h
    · rw [isFinite_of_toRat? hvalue] at hinfinite
      cases hinfinite
    · rw [hvalue] at hv
      exact hne k (Option.some.inj hv).symm

theorem HasFraction.isFinite (h : HasFraction x) : x.isFinite = true := by
  obtain ⟨v, hv, -⟩ := h
  exact isFinite_of_toRat? hv

theorem isWhole_eq_false_iff (hx : x.isFinite = true) : isWhole x = false ↔ HasFraction x := by
  rw [isWhole, Option.isSome_eq_false_iff, Option.isNone_iff_eq_none, whole?_eq_none_iff]
  exact or_iff_right (by rw [hx]; exact Bool.noConfusion)

/-! ## The order of positive doubles -/

/-- The fields are compared one after the other. -/
theorem compare_ofFields {e m e' m' : Nat} (hlex : e < e' ∨ e = e' ∧ m < m')
    (hm : m < binadeSize) (he : e' ≤ 2047) (hinfinite : e' = 2047 → m' = 0) :
    (ofFields .positive e m).compare (ofFields .positive e' m') = some .lt := by
  have hthen {i j : ℤ} {a b : Nat} (h : i < j ∨ i = j ∧ a < b) :
      some ((compare i j).then (compare a b)) = some .lt := by
    refine congrArg some (Ordering.then_eq_lt.2 ?_)
    rwa [Int.compare_eq_lt, Int.compare_eq_eq, Nat.compare_eq_lt]
  have hlt : e ≠ 2047 := by omega
  rw [ofFields, ofFields, if_neg hlt]
  by_cases htop : e' = 2047
  · rw [if_pos htop, if_pos (hinfinite htop)]
    by_cases hzero : e = 0
    · rw [if_pos hzero]
      by_cases hm : m = 0
      · rw [dif_pos hm]
        rfl
      · rw [dif_neg hm]
        rfl
    · rw [if_neg hzero]
      rfl
  · rw [if_neg htop]
    -- The numbers below the first binade have its step, and no leading bit.
    by_cases hzero : e = 0
    · rw [if_pos hzero]
      by_cases hm : m = 0
      · rw [dif_pos hm]
        by_cases hzero' : e' = 0
        · have hm' : m' ≠ 0 := by omega
          rw [if_pos hzero', dif_neg hm']
          rfl
        · rw [if_neg hzero']
          rfl
      · rw [dif_neg hm]
        by_cases hzero' : e' = 0
        · have hm' : m' ≠ 0 := by omega
          rw [if_pos hzero', dif_neg hm']
          exact hthen (by omega)
        · rw [if_neg hzero']
          exact hthen (by omega)
    · have hzero' : e' ≠ 0 := by omega
      rw [if_neg hzero, if_neg hzero']
      exact hthen (by omega)

theorem le_of_compare {o : Ordering} (h : x.toModel.unpack.compare y.toModel.unpack = some o)
    (ho : o.isLE = true) : x ≤ y := by
  have hle : x.toModel.unpack.le y.toModel.unpack = true := by
    rw [UnpackedFloat.le, h]
    exact ho
  exact decide_eq_true hle

theorem form_ne_nan (h : code x ≤ infinityCode) : form x ≠ .nan := by
  unfold form
  split
  · exact nofun
  · rw [if_pos (by omega)]
    exact nofun

/-- A greater code is that of a greater double. -/
theorem le_of_code_le (hx : negative x = false) (hy : negative y = false)
    (h : code x ≤ code y) (hcode : code y ≤ infinityCode) : x ≤ y := by
  obtain heq | hlt := Nat.eq_or_lt_of_le h
  · obtain rfl : x = y := eq_of_code_eq heq (hx.trans hy.symm)
    exact le_of_compare (beq_iff_eq.1 (beq_self (form_ne_nan hcode))) rfl
  · have hdiv := Nat.div_add_mod (code x) binadeSize
    have hdiv' := Nat.div_add_mod (code y) binadeSize
    have hmod := Nat.mod_lt (code x) binadeSize_pos
    have hinfinity : infinityCode = 2047 * binadeSize := rfl
    refine le_of_compare (o := .lt) ?_ rfl
    rw [unpack_toModel, unpack_toModel, hx, hy]
    refine compare_ofFields ?_ hmod ?_ ?_
    · refine (Nat.lt_or_eq_of_le (Nat.div_le_div_right h)).imp_right fun heq => ⟨heq, ?_⟩
      rw [heq] at hdiv
      omega
    · exact Nat.div_le_of_le_mul (by rwa [Nat.mul_comm])
    · intro htop
      rw [htop] at hdiv'
      omega

end Calculator.Binary64
