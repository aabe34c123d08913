import Calculator.Binary64.Whole
import Calculator.CrossCheck.Evaluation
import Calculator.Proofs.Binary64.Forms

/-! # Whole numbers and doubles

    The whole part of a finite double is an integer, and that integer goes back
    to a double without overflow and without rounding (`ofInt_truncate`). So a
    double is whole if and only if it is equal to its whole part
    (`isIntegral_eq`), a test that takes two conversions which fail for other
    arguments.
-/

namespace Calculator

open CrossCheck (Breakdown)

namespace CrossCheck.Strict

open Binary64

/-- The whole part of a double; infinities and NaN have none. -/
def truncate (x : Float) : Except Breakdown Int :=
  match form x with
  | .finite sign n =>
    let magnitude : Int := (n / unitsPerOne : Nat)
    .ok (if sign then -magnitude else magnitude)
  | .infinite _ => .error .overflow
  | .nan => .error .domain

/-- The double nearest to an integer; beyond the greatest double there is none. -/
def ofInt (i : Int) : Except Breakdown Float :=
  let x := ofUnits (i < 0) (i.natAbs * unitsPerOne)
  if x.isInf then .error .overflow else .ok x

/-- Whether a double is finite and equal to its whole part. -/
def isIntegral (x : Float) : Except Breakdown Bool :=
  if x.isFinite then do
    let y ← ofInt (← truncate x)
    return y == x
  else return false

end CrossCheck.Strict

namespace Binary64

open CrossCheck.Strict

variable {x : Float}

theorem exists_unitsPerOne_eq : ∃ k, unitsPerOne = 2 ^ k := by
  unfold unitsPerOne
  generalize 1074 = k
  exact ⟨k, rfl⟩

theorem unitsPerOne_pos : 0 < unitsPerOne := by
  obtain ⟨k, hk⟩ := exists_unitsPerOne_eq
  rw [hk]
  exact Nat.two_pow_pos k

theorem form_one : form 1 = .finite false unitsPerOne := by decide +kernel

theorem beq_one_eq (x : Float) : (x == 1) = decide (form x = .finite false unitsPerOne) := by
  rw [Bool.eq_iff_iff, beq_iff, form_one, decide_eq_true_iff]
  constructor
  · rintro (⟨h, -⟩ | ⟨a, b, -, h⟩)
    · exact h
    · exact absurd (Form.finite.inj h).2 (Nat.ne_of_gt unitsPerOne_pos)
  · intro h
    rw [h]
    exact .inl ⟨rfl, nofun⟩

/-! ## The whole part -/

/-- Cutting off the fraction leaves a multiple of the step at its size. -/
theorem two_pow_doublings_dvd_whole {n : Nat} (h : 2 ^ doublings n ∣ n) :
    2 ^ doublings (n / unitsPerOne * unitsPerOne) ∣ n / unitsPerOne * unitsPerOne := by
  obtain ⟨k, hk⟩ := exists_unitsPerOne_eq
  rw [hk]
  by_cases hlarge : k ≤ doublings n
  · -- from here on there is no fraction
    have hdvd : 2 ^ k ∣ n := Nat.dvd_trans (Nat.pow_dvd_pow 2 hlarge) h
    rwa [Nat.div_mul_cancel hdvd]
  · -- the step at the size of the whole part divides the units of a one
    have hle := doublings_mono (Nat.div_mul_le_self n (2 ^ k))
    exact Nat.dvd_trans (Nat.pow_dvd_pow 2 (by omega)) (Nat.dvd_mul_left _ _)

/-- The whole part of a finite double is a double. -/
theorem form_ofUnits_whole {s : Bool} {n : Nat} (h : form x = .finite s n) (t : Bool) :
    form (ofUnits t (n / unitsPerOne * unitsPerOne)) =
      .finite t (n / unitsPerOne * unitsPerOne) := by
  obtain ⟨hcode, -, rfl⟩ := form_eq_finite h
  exact form_ofUnits (two_pow_doublings_dvd_whole (two_pow_doublings_dvd_unitsOfCode (code x)))
    (Nat.div_mul_le_self _ unitsPerOne) hcode t

/-- The whole part of a finite double, as an integer, goes back to a double. -/
theorem ofInt_truncate {s : Bool} {n : Nat} (h : form x = .finite s n) :
    ∃ i : Int, truncate x = .ok i ∧ i.natAbs = n / unitsPerOne ∧
      (i < 0 ↔ s = true ∧ n / unitsPerOne ≠ 0) ∧
      ofInt i = .ok (ofUnits (i < 0) (n / unitsPerOne * unitsPerOne)) := by
  have hfinite (t : Bool) : (ofUnits t (n / unitsPerOne * unitsPerOne)).isInf = false := by
    rw [isInf_eq, form_ofUnits_whole h t]
    rfl
  unfold truncate ofInt
  rw [h]
  dsimp only
  generalize n / unitsPerOne = m at *
  have habs : (if s then -(m : Int) else (m : Int)).natAbs = m := by cases s <;> simp
  refine ⟨_, rfl, habs, ?_, ?_⟩
  · cases s <;> simp
    omega
  · rw [habs, hfinite]
    rfl

theorem isWhole_eq {s : Bool} {n : Nat} (h : form x = .finite s n) :
    isWhole x = decide (n % unitsPerOne = 0) := by
  rw [isWhole, whole?, h]
  dsimp only
  by_cases hwhole : n % unitsPerOne = 0
  · rw [if_pos hwhole, decide_eq_true hwhole]
    rfl
  · rw [if_neg hwhole, decide_eq_false hwhole]
    rfl

/-- The conversions that test a double for integrality never fail, and the test
    is exact. -/
theorem isIntegral_eq (x : Float) : isIntegral x = .ok (isWhole x) := by
  unfold isIntegral
  cases h : form x with
  | nan | infinite =>
    rw [isFinite_eq, isWhole, whole?, h]
    rfl
  | finite s n =>
    have hx : x.isFinite = true := by
      rw [isFinite_eq, h]
      rfl
    obtain ⟨i, htruncate, -, hsign, hofInt⟩ := ofInt_truncate h
    have hform := form_ofUnits_whole h (i < 0)
    rw [hx, if_pos rfl, htruncate, isWhole_eq h]
    show (do let y ← ofInt i; return y == x) = _
    rw [hofInt]
    refine congrArg Except.ok ?_
    generalize ofUnits (i < 0) (n / unitsPerOne * unitsPerOne) = y at *
    have hdiv := Nat.div_add_mod' n unitsPerOne
    by_cases hwhole : n % unitsPerOne = 0
    · -- Nothing was cut off. The sign of a zero is lost on the way, but zeros are equal.
      rw [decide_eq_true hwhole]
      rw [hwhole, Nat.add_zero] at hdiv
      rw [hdiv] at hform
      by_cases hzero : n = 0
      · subst hzero
        exact beq_iff.2 (.inr ⟨_, s, hform, h⟩)
      · have hne : n / unitsPerOne ≠ 0 := fun h0 => hzero (by rw [← hdiv, h0, Nat.zero_mul])
        have hs : decide (i < 0) = s := by
          rw [Bool.eq_iff_iff, decide_eq_true_iff, hsign]
          exact and_iff_left hne
        rw [hs] at hform
        refine beq_iff.2 (.inl ⟨hform.trans h.symm, ?_⟩)
        rw [hform]
        exact nofun
    · -- A fraction was cut off, so the magnitudes differ.
      rw [decide_eq_false hwhole, ← Bool.not_eq_true, beq_iff, hform, h]
      rintro (⟨heq, -⟩ | ⟨a, b, -, hb⟩)
      · have := (Form.finite.inj heq).2
        omega
      · rw [(Form.finite.inj hb).2] at hwhole
        exact hwhole (Nat.zero_mod _)

/-- Where a double is whole, its whole part is its value. -/
theorem truncate_of_whole {i : Int} (h : whole? x = some i) : truncate x = .ok i := by
  unfold whole? at h
  unfold truncate
  cases hx : form x with
  | nan | infinite =>
    rw [hx] at h
    cases h
  | finite s n =>
    rw [hx] at h
    dsimp only at h ⊢
    split at h
    · rw [Option.some.inj h]
    · cases h

end Binary64

end Calculator
