import Mathlib.Data.Rat.Floor
import Calculator.Proofs.Binary64.Values
import Calculator.Proofs.Grammar.Completeness
import Calculator.Proofs.Guarded

/-! # The remainder is exact

    The remainder of two doubles is found on their units, and the units that are
    left are those of a double again: the smaller one of the two steps divides
    both numbers, so it divides the remainder, which lies below both
    (`form_remainder`). So the remainder of `u` by `v` is `u - v * trunc (u / v)`
    without any rounding, however far apart the two exponents are, and has the sign
    of `u` also when it is zero (`remainder_exact`).
-/

namespace Calculator

open CrossCheck (ProductOp)

namespace Binary64

variable {a b : Float}

/-! ## Quotients cut toward zero -/

/-- The whole number that is left of `q` without its fraction. -/
def towardZero (q : ℚ) : ℤ := if q < 0 then ⌈q⌉ else ⌊q⌋

theorem towardZero_of_nonneg (m n : Nat) : towardZero ((m : ℚ) / n) = (m / n : Nat) := by
  have hnonneg : ¬ (m : ℚ) / n < 0 := not_lt.2 (by positivity)
  rw [towardZero, if_neg hnonneg, Rat.floor_natCast_div_natCast]
  rfl

theorem towardZero_neg (q : ℚ) : towardZero (-q) = -towardZero q := by
  unfold towardZero
  obtain hlt | rfl | hgt := lt_trichotomy q 0
  · rw [if_neg (by linarith), if_pos hlt, Int.floor_neg]
  · simp
  · rw [if_pos (by linarith), if_neg (by linarith), Int.ceil_neg]

/-- The quotient of two numbers of units has the sign that theirs make. -/
theorem towardZero_signedUnits (s t : Bool) (m n : Nat) :
    towardZero ((signedUnits s m : ℚ) / signedUnits t n) = signedUnits (s != t) (m / n) := by
  have hnonneg := towardZero_of_nonneg m n
  have hneg := towardZero_neg ((m : ℚ) / n)
  rw [hnonneg] at hneg
  cases s <;> cases t
  · simpa [signedUnits] using hnonneg
  · simpa [signedUnits, div_neg] using hneg
  · simpa [signedUnits, neg_div] using hneg
  · simpa [signedUnits, neg_div_neg_eq] using hnonneg

/-- What the cut quotient leaves of a number of units. -/
theorem signedUnits_mod (s t : Bool) (m n : Nat) :
    signedUnits s m - signedUnits t n * signedUnits (s != t) (m / n) = signedUnits s (m % n) := by
  have hsplit : (n : ℤ) * (m / n : Nat) + (m % n : Nat) = m := by
    exact_mod_cast Nat.div_add_mod m n
  cases s <;> cases t <;> simp only [signedUnits, bne_self_eq_false, Bool.true_bne,
    Bool.false_bne, Bool.not_false, if_true, if_false, Bool.false_eq_true] <;> linarith

/-! ## The remainder of two numbers of units -/

/-- The remainder lies below both numbers, so its step divides both of theirs. -/
theorem two_pow_doublings_dvd_mod {m n : Nat} (hm : 2 ^ doublings m ∣ m)
    (hn : 2 ^ doublings n ∣ n) (hpos : 0 < n) : 2 ^ doublings (m % n) ∣ m % n := by
  have hlem : doublings (m % n) ≤ doublings m := doublings_mono (Nat.mod_le m n)
  have hlen : doublings (m % n) ≤ doublings n :=
    doublings_mono (Nat.le_of_lt (Nat.mod_lt m hpos))
  have hdvdn : 2 ^ doublings (m % n) ∣ n := Nat.dvd_trans (Nat.pow_dvd_pow 2 hlen) hn
  exact (Nat.dvd_mod_iff hdvdn).2 (Nat.dvd_trans (Nat.pow_dvd_pow 2 hlem) hm)

/-- The remainder of two finite doubles is that of their units. -/
theorem form_remainder {s t : Bool} {m n : Nat} (ha : form a = .finite s m)
    (hb : form b = .finite t n) (hn : n ≠ 0) : form (remainder a b) = .finite s (m % n) := by
  obtain ⟨hcode, -, rfl⟩ := form_eq_finite ha
  obtain ⟨-, -, rfl⟩ := form_eq_finite hb
  have hstep := two_pow_doublings_dvd_mod (two_pow_doublings_dvd_unitsOfCode (code a))
    (two_pow_doublings_dvd_unitsOfCode (code b)) (Nat.pos_of_ne_zero hn)
  rw [remainder, ha, hb]
  dsimp only
  rw [if_neg hn]
  exact form_ofUnits hstep (Nat.mod_le _ _) hcode s

/-- A remainder is its own remainder. -/
theorem remainder_remainder {s t : Bool} {m n : Nat} (ha : form a = .finite s m)
    (hb : form b = .finite t n) (hn : n ≠ 0) :
    remainder (remainder a b) b = remainder a b := by
  have honce := form_remainder ha hb hn
  have htwice := form_remainder honce hb hn
  rw [Nat.mod_mod] at htwice
  refine form_inj (htwice.trans honce.symm) ?_
  rw [htwice]
  exact nofun

/-! ## Remainders of numbers -/

theorem ne_zero_of_form {t : Bool} {n : Nat} (hb : (b == 0) = false)
    (hform : form b = .finite t n) : n ≠ 0 := by
  rwa [beq_zero_of_form hform, beq_eq_false_iff_ne] at hb

/-- The remainder of one finite number by another is exact. -/
theorem toRat?_remainder {u v : ℚ} (hb : (b == 0) = false) (hu : toRat? a = some u)
    (hv : toRat? b = some v) :
    toRat? (remainder a b) = some (u - v * towardZero (u / v)) ∧
      |u - v * towardZero (u / v)| < |v| ∧ negative (remainder a b) = negative a := by
  obtain ⟨s, m, ha, rfl⟩ := exists_form_of_toRat? hu
  obtain ⟨t, n, hform, rfl⟩ := exists_form_of_toRat? hv
  have hn := ne_zero_of_form hb hform
  have hr := form_remainder ha hform hn
  have hvalue := toRat?_eq hr
  have hone : (0 : ℚ) < 2 ^ 1074 := by positivity
  generalize (2 : ℚ) ^ 1074 = one at *
  have hexact : (signedUnits s m : ℚ) / one - signedUnits t n / one *
      towardZero ((signedUnits s m : ℚ) / one / (signedUnits t n / one)) =
        signedUnits s (m % n) / one := by
    rw [div_div_div_cancel_right₀ hone.ne', towardZero_signedUnits, div_mul_eq_mul_div, ← sub_div,
      ← signedUnits_mod s t]
    push_cast
    rfl
  have habs (s : Bool) (k : Nat) : |(signedUnits s k : ℚ) / one| = (k : ℚ) / one := by
    rw [abs_div, abs_of_pos hone]
    cases s <;> simp [signedUnits]
  rw [hexact, habs, habs]
  refine ⟨hvalue, div_lt_div_of_pos_right ?_ hone, ?_⟩
  · exact_mod_cast Nat.mod_lt m (Nat.pos_of_ne_zero hn)
  · rw [(form_eq_finite hr).2.1, (form_eq_finite ha).2.1]

/-! ## Remainders that are no numbers -/

theorem remainder_of_isInf (ha : a.isFinite = true) (hb : b.isInf = true) :
    remainder a b = a := by
  obtain ⟨s, m, hform⟩ := exists_form_of_isFinite ha
  obtain ⟨t, hform'⟩ := exists_form_of_isInf hb
  rw [remainder, hform, hform']

theorem remainder_of_not_finite (h : a.isInf = true ∨ a.isNaN = true ∨ b.isNaN = true) :
    remainder a b = nan := by
  rw [isInf_eq, isNaN_eq, isNaN_eq] at h
  unfold remainder
  cases hfa : form a with
  | nan | infinite => rfl
  | finite s m =>
    cases hfb : form b with
    | nan => rfl
    | infinite | finite => simp [hfa, hfb, Form.isInfinite, Form.isNaN] at h

/-! ## The operator -/

theorem modulo_apply (hb : (b == 0) = false) :
    ProductOp.mod.apply a b = .ok (remainder a b) := by
  rw [ProductOp.apply, hb]
  rfl

/-- Strictly there is no remainder of an infinite dividend, unless the divisor is a
    NaN. -/
theorem strict_modulo_eq_domain (hb : (b == 0) = false) :
    CrossCheck.Strict.modulo a b = .error .domain ↔ a.isInf = true ∧ b.isNaN = false := by
  unfold CrossCheck.Strict.modulo
  rw [isNaN_eq, isNaN_eq, isInf_eq, hb]
  cases form a <;> cases form b <;> simp [Form.isNaN, Form.isInfinite]

/-- The remainder has a result for every divisor but zero, and it is exact. The
    remainder of a finite `u` by a finite `v` is `u - v * trunc (u / v)` without any
    rounding, is less than `v` in magnitude, and has the sign of `u` even if it is zero.
    So it does not change when it is taken a second time: in a chain `x % y % z` in which
    `y` and `z` have the same value, the last operator leaves every bit as it is. A finite
    number is its own remainder by an infinity, and where an operand is a NaN or the
    dividend is infinite, the remainder is a NaN. -/
theorem remainder_exact (a b : Float) (hb : (b == 0) = false) :
    Guarded.modulo a b = .ok (.ok (remainder a b)) ∧
    (CrossCheck.Strict.modulo a b = .error .domain ↔ a.isInf = true ∧ b.isNaN = false) ∧
    (∀ u v, toRat? a = some u → toRat? b = some v →
      toRat? (remainder a b) = some (u - v * towardZero (u / v)) ∧
        |u - v * towardZero (u / v)| < |v| ∧ negative (remainder a b) = negative a ∧
        remainder (remainder a b) b = remainder a b ∧
        ∀ {d : Dialect} (names : Bindings) (x : Tree d .term) (y z : Tree d .power)
          (sign sign' : Token.Of .percent) (t : Token) (s s' : Scanner), d.Closable →
          x.value names = .ok a → y.value names = .ok b → z.value names = .ok b →
          let chain := Tree.term (.product (.product x .mod sign y) .mod sign' z)
          s.Gives (chain.yield ++ [t]) s' → ¬ chain.CanExtend t →
            expression d names s = .ok (remainder a b) (s'.hold t)) ∧
    (a.isFinite = true → b.isInf = true → remainder a b = a) ∧
    (a.isInf = true ∨ a.isNaN = true ∨ b.isNaN = true → remainder a b = nan) := by
  refine ⟨?_, strict_modulo_eq_domain hb, ?_, remainder_of_isInf, remainder_of_not_finite⟩
  · rw [Guarded.modulo_eq_ite, hb]
    rfl
  · intro u v hu hv
    obtain ⟨hvalue, hlt, hsign⟩ := toRat?_remainder hb hu hv
    obtain ⟨s, m, ha, -⟩ := exists_form_of_toRat? hu
    obtain ⟨t, n, hform, -⟩ := exists_form_of_toRat? hv
    have hagain := remainder_remainder ha hform (ne_zero_of_form hb hform)
    refine ⟨hvalue, hlt, hsign, hagain, ?_⟩
    intro d names x y z sign sign' t s s' hd hx hy hz chain hgives hnot
    have honce : (Tree.product x .mod sign y).value names = .ok (remainder a b) :=
      (Tree.value_product hx hy).trans (modulo_apply hb)
    have hchain : chain.value names = .ok (remainder a b) := by
      rw [← hagain]
      exact (Tree.value_product honce hz).trans (modulo_apply hb)
    have hread := expression_of_yield hd names chain hgives hnot
    rwa [hchain] at hread

/-- The greatest double of all, negated, by three times the least positive one. -/
theorem remainder_exact_far_apart :
    let a := ofCode true (infinityCode - 1)
    let b := ofCode false 3
    (b == 0) = false ∧ ∃ u v, toRat? a = some u ∧ toRat? b = some v ∧
      toRat? (ofCode true 2) = some (u - v * towardZero (u / v)) := by
  intro a b
  have hb : (b == 0) = false := by decide +kernel
  have hremainder : remainder a b = ofCode true 2 := by decide +kernel
  have hu := toRat?_eq (form_ofCode true (c := infinityCode - 1) (by decide))
  have hv := toRat?_eq (form_ofCode false (c := 3) (by decide))
  have hexact := ((remainder_exact a b hb).2.2.1 _ _ hu hv).1
  rw [hremainder] at hexact
  exact ⟨hb, _, _, hu, hv, hexact⟩

end Binary64

end Calculator
