import Calculator.Proofs.Binary64.Values
import Calculator.Proofs.Guarded

/-! # Powers of all doubles

    The strict power breaks down for a zero that is raised to a negative number
    (`IsPole`), for a fractional power of a negative number (`LacksPower`) and where
    the magnitude of the power is too large (`Overflows`), and otherwise it has the
    special cases of C (`FollowsC`). In place of a breakdown there is an infinity or a
    NaN, and the sign of the infinity depends on whether the exponent stands for an
    odd integer, however large that is (`power_total`).
-/

namespace Calculator.Binary64

open CrossCheck (Strict.power)

variable {b e : Float}

/-! ## Breakdowns -/

/-- A zero is raised to a negative number. -/
def IsPole (b e : Float) : Prop := (b == 0) = true ∧ e.isFinite = true ∧ e < 0

/-- A negative number is raised to a number that is no integer. -/
def LacksPower (b e : Float) : Prop := b.isFinite = true ∧ b < 0 ∧ HasFraction e

/-- The magnitude of the power of two numbers is too large for a double. -/
structure Overflows (b e : Float) : Prop where
  base : b.isFinite = true
  base_ne_zero : (b == 0) = false
  base_ne_one : (b == 1) = false
  exponent : e.isFinite = true
  exponent_ne_zero : (e == 0) = false
  hasPower : ¬ LacksPower b e
  magnitude : (b.abs.pow e).isInf = true

section forms
variable {s t : Bool} {m n : Nat}

theorem isPole_iff (hb : form b = .finite s m) (he : form e = .finite t n) :
    IsPole b e ↔ m = 0 ∧ t = true ∧ n ≠ 0 := by
  rw [IsPole, beq_zero_of_form hb, lt_zero_of_form he, beq_iff_eq]
  simp only [isFinite_of_form he, true_and]

theorem lacksPower_iff (hb : form b = .finite s m) (he : form e = .finite t n) :
    LacksPower b e ↔ (s = true ∧ m ≠ 0) ∧ isWhole e = false := by
  rw [LacksPower, lt_zero_of_form hb, isWhole_eq_false_iff (isFinite_of_form he)]
  simp only [isFinite_of_form hb, true_and]

end forms

/-- The power of two numbers that are not zero has the sign of the base, if the exponent
    is odd. -/
theorem power_eq_withSign (hb : b.isFinite = true) (he : e.isFinite = true)
    (hm : (b == 0) = false) (hn : (e == 0) = false) (hone : (b == 1) = false)
    (h : ¬ LacksPower b e) :
    ∃ s, (s = true ↔ b < 0 ∧ IsOddInteger e) ∧ power b e = withSign s (b.abs.pow e) := by
  obtain ⟨s, m, hform⟩ := exists_form_of_isFinite hb
  obtain ⟨t, n, hform'⟩ := exists_form_of_isFinite he
  rw [beq_zero_of_form hform, beq_eq_false_iff_ne] at hm
  have hwhole : ¬ (s && !isWhole e) = true := by
    rw [lacksPower_iff hform hform'] at h
    simpa [hm] using h
  refine ⟨s && isOdd e, ?_, ?_⟩
  · rw [Bool.and_eq_true, isOdd_iff, lt_zero_of_form hform, and_iff_left hm]
  · obtain ⟨m, rfl⟩ := Nat.exists_eq_succ_of_ne_zero hm
    rw [power, hn, hone, hform, hform']
    dsimp only
    rw [if_neg hwhole]
    rfl

theorem isInf_power_iff (hb : b.isFinite = true) (he : e.isFinite = true) (hpole : ¬ IsPole b e)
    (hpower : ¬ LacksPower b e) : (power b e).isInf = true ↔ Overflows b e := by
  constructor
  · intro hinf
    obtain ⟨s, m, hform⟩ := exists_form_of_isFinite hb
    obtain ⟨t, n, hform'⟩ := exists_form_of_isFinite he
    have hpole' : m = 0 → t = true → n = 0 := by simpa [isPole_iff hform hform'] using hpole
    have hwhole : s = true → m ≠ 0 → isWhole e = true := by
      simpa [lacksPower_iff hform hform'] using hpower
    obtain ⟨hm, -⟩ := Guarded.power_of_overflow hform hform' hpole' hwhole hinf
    have hzero : (b == 0) = false := by
      rw [beq_zero_of_form hform]
      exact beq_false_of_ne hm
    have hone : ¬ (e == 0 || b == 1) = true := fun h => by
      rw [power, if_pos h, Guarded.isInf_one] at hinf
      cases hinf
    rw [Bool.or_eq_true, not_or, Bool.not_eq_true, Bool.not_eq_true] at hone
    obtain ⟨sign, -, hvalue⟩ := power_eq_withSign hb he hzero hone.1 hone.2 hpower
    rw [hvalue, isInf_withSign] at hinf
    exact ⟨hb, hzero, hone.2, he, hone.1, hpower, hinf⟩
  · intro h
    obtain ⟨sign, -, hvalue⟩ :=
      power_eq_withSign hb he h.base_ne_zero h.exponent_ne_zero h.base_ne_one hpower
    rw [hvalue, isInf_withSign]
    exact h.magnitude

/-- The strict power breaks down in one of three ways, or it is the power. -/
theorem strict_power_cases (b e : Float) :
    (IsPole b e ∨ LacksPower b e) ∧ Strict.power b e = .error .domain ∨
      Overflows b e ∧ Strict.power b e = .error .overflow ∨
      (¬ IsPole b e ∧ ¬ LacksPower b e ∧ ¬ Overflows b e) ∧
        Strict.power b e = .ok (power b e) := by
  unfold Strict.power
  dsimp only
  by_cases hfinite : b.isFinite = true ∧ e.isFinite = true
  · obtain ⟨hb, he⟩ := hfinite
    have hpole : (b == 0 && decide (e < 0)) = true ↔ IsPole b e := by
      rw [IsPole, Bool.and_eq_true, decide_eq_true_eq]
      exact and_congr_right fun _ => (and_iff_right he).symm
    have hlacks : (decide (b < 0) && !isWhole e) = true ↔ LacksPower b e := by
      rw [LacksPower, Bool.and_eq_true, decide_eq_true_eq, Bool.not_eq_true',
        isWhole_eq_false_iff he]
      exact (and_iff_right hb).symm
    rw [hb, he, if_neg (by decide)]
    by_cases h : IsPole b e
    · rw [if_pos (hpole.2 h)]
      exact .inl ⟨.inl h, rfl⟩
    · rw [if_neg (mt hpole.1 h)]
      by_cases h' : LacksPower b e
      · rw [if_pos (hlacks.2 h')]
        exact .inl ⟨.inr h', rfl⟩
      · rw [if_neg (mt hlacks.1 h')]
        have hoverflows := isInf_power_iff hb he h h'
        by_cases hinf : Overflows b e
        · rw [if_pos (hoverflows.2 hinf)]
          exact .inr (.inl ⟨hinf, rfl⟩)
        · rw [if_neg (mt hoverflows.1 hinf)]
          exact .inr (.inr ⟨⟨h, h', hinf⟩, rfl⟩)
  · -- with an operand that is no number nothing breaks down
    have hnot : (!b.isFinite || !e.isFinite) = true := by
      rwa [← Bool.not_and, Bool.not_eq_true', ← Bool.not_eq_true, Bool.and_eq_true]
    rw [if_pos hnot]
    refine .inr (.inr ⟨⟨fun h => hfinite ?_, fun h => hfinite ?_, fun h => hfinite ?_⟩, rfl⟩)
    · exact ⟨isFinite_of_zero h.1, h.2.1⟩
    · exact ⟨h.1, h.2.2.isFinite⟩
    · exact ⟨h.base, h.exponent⟩

theorem Overflows.not_isPole (h : Overflows b e) : ¬ IsPole b e := fun hpole => by
  have hzero := hpole.1
  rw [h.base_ne_zero] at hzero
  cases hzero

theorem strict_power_eq_domain_iff :
    Strict.power b e = .error .domain ↔ IsPole b e ∨ LacksPower b e := by
  obtain ⟨h, heq⟩ | ⟨h, heq⟩ | ⟨⟨hpole, hpower, -⟩, heq⟩ := strict_power_cases b e <;> rw [heq]
  · exact iff_of_true rfl h
  · exact iff_of_false nofun (not_or.2 ⟨h.not_isPole, h.hasPower⟩)
  · exact iff_of_false nofun (not_or.2 ⟨hpole, hpower⟩)

theorem strict_power_eq_overflow_iff :
    Strict.power b e = .error .overflow ↔ Overflows b e := by
  obtain ⟨h, heq⟩ | ⟨h, heq⟩ | ⟨⟨-, -, h⟩, heq⟩ := strict_power_cases b e <;> rw [heq]
  · refine iff_of_false nofun fun hover => ?_
    exact h.elim hover.not_isPole hover.hasPower
  · exact iff_of_true rfl h
  · exact iff_of_false nofun h

/-! ## What takes their place -/

theorem infinity_ne : infinity false ≠ infinity true := fun h => by
  have hsign := congrArg negative h
  rw [infinity, infinity, negative_ofCode _ (Nat.le_refl _),
    negative_ofCode _ (Nat.le_refl _)] at hsign
  cases hsign

/-- Where the power overflows, it has the sign that it would have. -/
theorem Overflows.power_eq (h : Overflows b e) :
    (power b e = infinity true ↔ b < 0 ∧ IsOddInteger e) ∧
      (¬ (b < 0 ∧ IsOddInteger e) → power b e = infinity false) := by
  obtain ⟨s, hs, hpower⟩ := power_eq_withSign h.base h.exponent h.base_ne_zero h.exponent_ne_zero
    h.base_ne_one h.hasPower
  have hinf : withSign s (b.abs.pow e) = infinity s :=
    withSign_of_isInf ((isInf_withSign _).2 h.magnitude)
  rw [hpower, hinf, ← hs]
  cases s with
  | true => exact ⟨iff_of_true rfl rfl, fun hnot => absurd rfl hnot⟩
  | false => exact ⟨iff_of_false infinity_ne Bool.false_ne_true, fun _ => rfl⟩

/-- At a pole the power has the sign of the zero, if the exponent is odd. -/
theorem IsPole.power_eq (h : IsPole b e) :
    (IsOddInteger e → power b e = infinity (negative b)) ∧
      (¬ IsOddInteger e → power b e = infinity false) := by
  obtain ⟨s, m, hform⟩ := exists_form_of_isFinite (isFinite_of_zero h.1)
  obtain ⟨t, n, hform'⟩ := exists_form_of_isFinite h.2.1
  obtain ⟨rfl, rfl, hn⟩ := (isPole_iff hform hform').1 h
  rw [Guarded.power_of_pole hform hform' hn, (form_eq_finite hform).2.1, ← isOdd_iff]
  cases isOdd e with
  | true => exact ⟨fun _ => congrArg infinity (Bool.and_true s), fun hnot => absurd rfl hnot⟩
  | false => exact ⟨nofun, fun _ => congrArg infinity (Bool.and_false s)⟩

theorem LacksPower.power_eq (h : LacksPower b e) : power b e = nan := by
  obtain ⟨s, m, hform⟩ := exists_form_of_isFinite h.1
  obtain ⟨t, n, hform'⟩ := exists_form_of_isFinite h.2.2.isFinite
  obtain ⟨⟨rfl, hm⟩, hwhole⟩ := (lacksPower_iff hform hform').1 h
  exact Guarded.power_of_negative_base hform hm hform' hwhole

/-! ## The other powers -/

/-- The power function of C where it has a result. The sign of a power with a negative
    base, a zero and an infinity among them, is that of the base for an odd exponent. -/
structure FollowsC (b e v : Float) : Prop where
  /-- whatever the other operand is, also a NaN -/
  one : (e == 0) = true ∨ (b == 1) = true → v = 1
  nan : (e == 0) = false → (b == 1) = false → b.isNaN = true ∨ e.isNaN = true → v = Binary64.nan
  infinite_exponent : e.isInf = true → b.isNaN = false → (b == 1) = false →
    v = if b.abs == 1 then 1 else limit false (decide (1 < b.abs) != negative e)
  /-- a zero or an infinity -/
  limit_base : e.isFinite = true → (e == 0) = false → (b == 0) = true ∨ b.isInf = true →
    ∃ s, (s = true ↔ negative b = true ∧ IsOddInteger e) ∧ v = limit s (b.isInf != negative e)
  finite : b.isFinite = true → e.isFinite = true → (e == 0) = false → (b == 0) = false →
    (b == 1) = false → ∃ s, (s = true ↔ b < 0 ∧ IsOddInteger e) ∧ v = withSign s (b.abs.pow e)

theorem followsC (h : ¬ LacksPower b e) : FollowsC b e (power b e) where
  one h := by
    rw [← Bool.or_eq_true] at h
    exact if_pos h
  nan he hb h := by
    rw [isNaN_eq, isNaN_eq] at h
    rw [power, he, hb, if_neg (by decide)]
    generalize form b = f at *
    generalize form e = g at *
    cases f with
    | nan => rfl
    | infinite | finite =>
      cases g with
      | nan => rfl
      | infinite | finite => exact absurd h (by simp [Form.isNaN])
  infinite_exponent he hb hone := by
    obtain ⟨t, hform⟩ := exists_form_of_isInf he
    have hzero : (e == 0) = false := by
      rw [beq_zero_eq, hform]
      rfl
    rw [isNaN_eq] at hb
    rw [power, hzero, hone, if_neg (by decide), hform, (form_eq_infinite hform).2]
    generalize form b = f at *
    cases f with
    | nan => cases hb
    | infinite | finite => rfl
  limit_base he hzero hb := by
    obtain ⟨t, n, hform⟩ := exists_form_of_isFinite he
    have hone : (b == 1) = false := by
      rw [beq_one_eq]
      refine decide_eq_false fun hform' => ?_
      obtain hb | hb := hb
      · rw [beq_zero_of_form hform', beq_iff_eq] at hb
        exact Nat.ne_of_gt unitsPerOne_pos hb
      · obtain ⟨s, hs⟩ := exists_form_of_isInf hb
        rw [hs] at hform'
        cases hform'
    refine ⟨negative b && isOdd e, by rw [Bool.and_eq_true, isOdd_iff], ?_⟩
    rw [power, hzero, hone, if_neg (by decide), hform, (form_eq_finite hform).2.1]
    obtain hb | hb := hb
    · obtain ⟨s, m, hform'⟩ := exists_form_of_isFinite (isFinite_of_zero hb)
      rw [beq_zero_of_form hform', beq_iff_eq] at hb
      subst hb
      rw [hform', isInf_eq, hform', (form_eq_finite hform').2.1]
      cases t <;> rfl
    · obtain ⟨s, hform'⟩ := exists_form_of_isInf hb
      rw [hb, hform', (form_eq_infinite hform').2]
      cases t <;> rfl
  finite hb he hn hm hone := power_eq_withSign hb he hm hn hone h

/-- The power has a value for all pairs of doubles, and it is that of the strict power
    where that one does not break down. In place of an overflow there is the negative
    infinity if the base is negative and the exponent is an odd integer, and else the
    positive one. A zero raised to a negative number is the infinity with the sign of
    the zero if the exponent is an odd integer, and else the positive one. A fractional
    power of a negative number is a NaN. -/
theorem power_total (b e : Float) :
    Guarded.power b e = .ok (power b e) ∧
    Strict.power b e ≠ .error .zeroDivision ∧
    (Strict.power b e = .error .overflow ↔ Overflows b e) ∧
    (Strict.power b e = .error .domain ↔ IsPole b e ∨ LacksPower b e) ∧
    (∀ v, Strict.power b e = .ok v → power b e = v ∧ FollowsC b e v) ∧
    (Overflows b e →
      (power b e = infinity true ↔ b < 0 ∧ IsOddInteger e) ∧
        (¬ (b < 0 ∧ IsOddInteger e) → power b e = infinity false)) ∧
    (IsPole b e →
      (IsOddInteger e → power b e = infinity (negative b)) ∧
        (¬ IsOddInteger e → power b e = infinity false)) ∧
    (LacksPower b e → power b e = nan) := by
  refine ⟨Guarded.power_eq b e, ?_, strict_power_eq_overflow_iff, strict_power_eq_domain_iff, ?_,
    Overflows.power_eq, IsPole.power_eq, LacksPower.power_eq⟩
  · obtain ⟨-, heq⟩ | ⟨-, heq⟩ | ⟨-, heq⟩ := strict_power_cases b e <;> rw [heq] <;> exact nofun
  · intro v hv
    obtain ⟨-, heq⟩ | ⟨-, heq⟩ | ⟨⟨-, hpower, -⟩, heq⟩ := strict_power_cases b e
    · rw [heq] at hv
      cases hv
    · rw [heq] at hv
      cases hv
    · rw [heq] at hv
      cases hv
      exact ⟨rfl, followsC hpower⟩

/-- The exponents are odd and even, beyond `2 ^ 53`, and fractional. -/
example :
    power (-0) (-3) = infinity true ∧ power (-0) (-9007199254740994) = infinity false ∧
      Strict.power (-8) 0.5 = .error .domain ∧ power (-8) 0.5 = nan := by
  decide +kernel

end Calculator.Binary64
