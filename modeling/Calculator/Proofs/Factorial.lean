import Calculator.Proofs.Binary64.Products
import Calculator.Proofs.Binary64.Values
import Calculator.Proofs.Guarded

/-! # Factorials

    A factorial is a product that is rounded after each factor and stops as soon as it
    is infinite. Stopping changes nothing (`risingProduct_unbroken`): no factor lies
    below one, so the product does not shrink (`AtLeastOne.mul`), and from infinity on
    it stays where it is. The first infinite product is the one with the factor `171`.
-/

namespace Calculator

open Binary64

/-! ## Doubles that are not below one -/

/-- A number not below one, or infinity. -/
structure AtLeastOne (x : Float) : Prop where
  positive : negative x = false
  one_le : code 1 ≤ code x
  no_nan : code x ≤ infinityCode

namespace AtLeastOne

variable {x y : Float}

theorem code_one : nearestCode unitsPerOne 1 = code 1 := by
  obtain ⟨hcode, -, hunits⟩ := form_eq_finite form_one
  rw [← hunits, nearestCode_unitsOfCode (Nat.le_of_lt hcode)]

theorem one : AtLeastOne 1 := by
  obtain ⟨hcode, hpositive, -⟩ := form_eq_finite form_one
  exact ⟨hpositive, Nat.le_refl _, Nat.le_of_lt hcode⟩

theorem ofNat {k : Nat} (hk : 0 < k) : AtLeastOne (ofNat k) := by
  have hle : nearestCode (k * unitsPerOne) 1 ≤ infinityCode := Nat.min_le_left _ _
  refine ⟨negative_ofCode false hle, ?_, ?_⟩
  · rw [Binary64.ofNat, ofUnits, nearest, code_ofCode false hle, ← code_one]
    exact nearestCode_mono (Nat.le_mul_of_pos_left _ hk)
  · rw [Binary64.ofNat, ofUnits, nearest, code_ofCode false hle]
    exact hle

/-- It is infinity or has at least the units of a one. -/
theorem form_eq (h : AtLeastOne x) :
    form x = .infinite false ∨ ∃ n, unitsPerOne ≤ n ∧ form x = .finite false n := by
  unfold form
  rw [h.positive]
  obtain hlt | heq := Nat.lt_or_eq_of_le h.no_nan
  · rw [if_pos hlt]
    refine .inr ⟨_, ?_, rfl⟩
    obtain ⟨-, -, hunits⟩ := form_eq_finite form_one
    rw [← hunits]
    obtain hone | hone := Nat.lt_or_eq_of_le h.one_le
    · exact Nat.le_of_lt (unitsOfCode_lt hone h.no_nan)
    · rw [hone]
  · rw [if_neg (Nat.not_lt.2 (Nat.le_of_eq heq.symm)), if_pos heq]
    exact .inl rfl

theorem isNonzero (h : AtLeastOne x) : (form x).IsNonzero false := by
  refine h.form_eq.imp_right ?_
  rintro ⟨n, hn, hform⟩
  exact ⟨n, hform, Nat.ne_of_gt (Nat.lt_of_lt_of_le unitsPerOne_pos hn)⟩

theorem eq_infinity (h : AtLeastOne x) (hcode : code x = infinityCode) : x = infinity false := by
  refine eq_of_code_eq ?_ ?_
  · rw [hcode, infinity, code_ofCode false (Nat.le_refl _)]
  · rw [h.positive, infinity, negative_ofCode false (Nat.le_refl _)]

/-- A product is not below either of its factors. -/
theorem mul (hx : AtLeastOne x) (hy : AtLeastOne y) :
    AtLeastOne (x * y) ∧ code x ≤ code (x * y) := by
  -- the product is made of a code that is not below that of `x`
  suffices h : ∃ c, x * y = ofCode false c ∧ code x ≤ c ∧ c ≤ infinityCode by
    obtain ⟨c, hmul, hle, hcode⟩ := h
    have hproduct : code (x * y) = c := by rw [hmul, code_ofCode false hcode]
    refine ⟨⟨?_, ?_, ?_⟩, ?_⟩
    · rw [hmul, negative_ofCode false hcode]
    · rw [hproduct]
      exact Nat.le_trans hx.one_le hle
    · rwa [hproduct]
    · rwa [hproduct]
  obtain hform | ⟨m, -, hform⟩ := hx.form_eq
  · exact ⟨_, mul_eq_infinity hx.isNonzero hy.isNonzero (.inl hform), hx.no_nan, Nat.le_refl _⟩
  · obtain hform' | ⟨n, hn, hform'⟩ := hy.form_eq
    · exact ⟨_, mul_eq_infinity hx.isNonzero hy.isNonzero (.inr hform'), hx.no_nan, Nat.le_refl _⟩
    · refine ⟨_, mul_eq hform hform', ?_, Nat.min_le_left _ _⟩
      obtain ⟨-, -, rfl⟩ := form_eq_finite hform
      have hone := nearestCode_mul_mul (unitsOfCode (code x)) 1 unitsPerOne_pos
      calc code x = nearestCode (unitsOfCode (code x)) 1 :=
            (nearestCode_unitsOfCode hx.no_nan).symm
        _ = nearestCode (unitsOfCode (code x) * unitsPerOne) unitsPerOne := by
            rw [← hone, Nat.mul_one, Nat.mul_comm]
        _ ≤ nearestCode (unitsOfCode (code x) * n) unitsPerOne :=
            nearestCode_mono_num unitsPerOne_pos (Nat.mul_le_mul_left _ hn)

end AtLeastOne

/-! ## The unbroken product -/

/-- `1 · 2 · 3 · …` with `i` factors after the one, rounded after each of them. -/
def unbroken : Nat → Float
  | 0 => 1
  | i + 1 => unbroken i * ofNat (i + 2)

theorem atLeastOne_unbroken (i : Nat) : AtLeastOne (unbroken i) := by
  induction i with
  | zero => exact .one
  | succ i ih => exact (ih.mul (.ofNat (Nat.succ_pos _))).1

theorem code_unbroken_mono {i j : Nat} (h : i ≤ j) : code (unbroken i) ≤ code (unbroken j) := by
  induction j, h using Nat.le_induction with
  | base => exact Nat.le_refl _
  | succ j _ ih =>
    exact Nat.le_trans ih ((atLeastOne_unbroken j).mul (.ofNat (Nat.succ_pos _))).2

/-- The factorials grow. -/
theorem unbroken_mono {i j : Nat} (h : i ≤ j) : unbroken i ≤ unbroken j :=
  le_of_code_le (atLeastOne_unbroken i).positive (atLeastOne_unbroken j).positive
    (code_unbroken_mono h) (atLeastOne_unbroken j).no_nan

/-- The product up to `170` is finite and the one up to `171` is not. -/
theorem code_unbroken_boundary :
    code (unbroken 169) < infinityCode ∧ code (unbroken 170) = infinityCode := by
  decide +kernel

/-- The factor `171` is the one that makes the product infinite. -/
theorem isInf_unbroken_iff (i : Nat) : (unbroken i).isInf = true ↔ 170 ≤ i := by
  obtain ⟨hfinite, hinfinite⟩ := code_unbroken_boundary
  rw [isInf_iff]
  constructor
  · intro h
    refine Nat.le_of_not_lt fun hlt => ?_
    have hle := code_unbroken_mono (Nat.le_of_lt_succ hlt)
    omega
  · intro h
    have hle := code_unbroken_mono h
    exact Nat.le_antisymm (atLeastOne_unbroken i).no_nan (hinfinite ▸ hle)

theorem unbroken_eq_infinity_iff (i : Nat) : unbroken i = infinity false ↔ 170 ≤ i := by
  rw [← isInf_unbroken_iff, isInf_iff]
  constructor
  · intro h
    rw [h]
    exact code_ofCode false (Nat.le_refl _)
  · exact (atLeastOne_unbroken i).eq_infinity

/-- Nothing is missed by stopping at infinity. -/
theorem risingProduct_unbroken (count i : Nat) :
    risingProduct count (i + 2) (unbroken i) = unbroken (i + count) := by
  induction count generalizing i with
  | zero => rfl
  | succ count ih =>
    rw [risingProduct_succ]
    show (if (unbroken (i + 1)).isInf = true then unbroken (i + 1)
      else risingProduct count (i + 1 + 2) (unbroken (i + 1))) = _
    by_cases hinf : (unbroken (i + 1)).isInf = true
    · have hi := (isInf_unbroken_iff _).1 hinf
      rw [if_pos hinf, (unbroken_eq_infinity_iff _).2 hi, (unbroken_eq_infinity_iff _).2 (by omega)]
    · rw [if_neg hinf, ih]
      exact congrArg unbroken (by omega)

theorem risingProduct_eq_unbroken (count : Nat) : risingProduct count 2 1 = unbroken count := by
  have h := risingProduct_unbroken count 0
  rwa [Nat.zero_add, Nat.zero_add] at h

/-! ## The passes of the loop -/

/-- There is no pass after the one that makes the product infinite. -/
theorem length_passes (count : Nat) {i : Nat} (hi : i < 170) :
    (passes count (i + 2) (unbroken i)).length = min count (170 - i) := by
  induction count generalizing i with
  | zero => exact (Nat.zero_min _).symm
  | succ count ih =>
    show (if (unbroken (i + 1)).isInf = true then [unbroken (i + 1)]
      else unbroken (i + 1) :: passes count (i + 1 + 2) (unbroken (i + 1))).length = _
    by_cases hinf : (unbroken (i + 1)).isInf = true
    · have := (isInf_unbroken_iff _).1 hinf
      rw [if_pos hinf, List.length_singleton]
      omega
    · have := mt (isInf_unbroken_iff _).2 hinf
      rw [if_neg hinf, List.length_cons, ih (by omega)]
      omega

/-! ## Factorials -/

theorem factorial_of_whole {x : Float} {k : ℤ} (h : whole? x = some k) :
    factorial x =
      if k < 0 then .error (.negativeFactorial k) else .ok (unbroken (k.toNat - 1)) := by
  rw [factorial, h]
  cases k with
  | ofNat n => exact congrArg Except.ok (risingProduct_eq_unbroken (n - 1))
  | negSucc n => exact (if_pos (Int.negSucc_lt_zero n)).symm

theorem factorial_of_nat {x : Float} {n : Nat} (h : toRat? x = some (n : ℚ)) :
    factorial x = .ok (unbroken (n - 1)) := by
  have hwhole : whole? x = some (n : ℤ) := whole?_eq_some_iff.2 (by exact_mod_cast h)
  rw [factorial_of_whole hwhole, if_neg (by omega), Int.toNat_natCast]

theorem factorial_fractional_iff (x : Float) :
    factorial x = .error (.fractionalFactorial x) ↔
      x.isNaN = true ∨ x.isInf = true ∨ HasFraction x := by
  rw [← or_assoc, ← isFinite_eq_false_iff, ← whole?_eq_none_iff]
  cases h : whole? x with
  | none =>
    rw [factorial, h]
    exact iff_of_true rfl rfl
  | some k =>
    rw [factorial_of_whole h]
    refine iff_of_false (fun hk => ?_) nofun
    split at hk <;> cases hk

theorem factorial_negative_iff (x : Float) (k : ℤ) :
    factorial x = .error (.negativeFactorial k) ↔ k < 0 ∧ toRat? x = some (k : ℚ) := by
  rw [← whole?_eq_some_iff]
  constructor
  · intro hk
    cases h : whole? x with
    | none =>
      rw [factorial, h] at hk
      cases hk
    | some i =>
      rw [factorial_of_whole h] at hk
      split at hk
      · next hneg =>
        cases hk
        exact ⟨hneg, rfl⟩
      · cases hk
  · rintro ⟨hneg, h⟩
    rw [factorial_of_whole h, if_pos hneg]

/-- The factorial rejects a double that is no integer and an integer below zero, and
    it has a value for every other one. The value of `n` is the product of all factors
    up to `n`, rounded after each of them, although there are at most 170 passes of the
    loop, however large `n` is. It is infinite from `171` on, and a greater number has
    no smaller factorial. The factorial of a negative zero is one. -/
theorem factorial_exact (x : Float) :
    Guarded.factorial x = .ok (factorial x) ∧
    (factorial x = .error (.fractionalFactorial x) ↔
      x.isNaN = true ∨ x.isInf = true ∨ HasFraction x) ∧
    (∀ k : ℤ, factorial x = .error (.negativeFactorial k) ↔
      k < 0 ∧ toRat? x = some (k : ℚ)) ∧
    (∀ n : ℕ, toRat? x = some (n : ℚ) →
      factorial x = .ok (unbroken (n - 1)) ∧
        (passes (n - 1) 2 1).getLastD 1 = unbroken (n - 1) ∧
        (passes (n - 1) 2 1).length = min (n - 1) 170 ∧
        (unbroken (n - 1) = infinity false ↔ 171 ≤ n) ∧
        ∀ (y : Float) (m : ℕ), toRat? y = some (m : ℚ) → m ≤ n →
          ∃ v, factorial y = .ok v ∧ v ≤ unbroken (n - 1)) ∧
    (form x = .finite true 0 → factorial x = .ok 1) := by
  refine ⟨Guarded.factorial_eq x, factorial_fractional_iff x, factorial_negative_iff x, ?_, ?_⟩
  · intro n hn
    refine ⟨factorial_of_nat hn, risingProduct_eq_unbroken (n - 1),
      length_passes (n - 1) (by decide), ?_, ?_⟩
    · rw [unbroken_eq_infinity_iff]
      omega
    · intro y m hm hle
      exact ⟨_, factorial_of_nat hm, unbroken_mono (Nat.sub_le_sub_right hle 1)⟩
  · intro hzero
    refine factorial_of_nat (n := 0) ?_
    rw [toRat?_eq hzero]
    simp [signedUnits]

end Calculator
