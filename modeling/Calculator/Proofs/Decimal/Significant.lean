import Calculator.Decimal.Significant
import Calculator.Proofs.Binary64.Forms
import Calculator.Proofs.Decimal.Layout

/-! # Seventeen digits determine a double

    Two doubles next to each other differ by one part in `2 ^ 53` at least, and
    the last of seventeen significant digits stands for less than one part in
    `10 ^ 16`. So a double that is rounded to seventeen digits or more moves by
    less than a quarter of a step, or of the shorter step below it, and is the
    double nearest to the rounded number (`ofDecimal_significand`). Its text is
    a sign and a literal with its magnitude as the value
    (`exists_resultChars_eq`).
-/

namespace Calculator

open Binary64

namespace Decimal

/-! ## The digits of a double -/

/-- All the digits that the double with `n` units has. -/
def allDigits (n : Nat) : Nat := n * Nat.pow 5 1074

/-- How many of them are not among the `p` significant ones. -/
def excess (p n : Nat) : Nat := (Nat.toDigits 10 (allDigits n)).length - p

/-- The significant digits, after rounding. -/
def significand (p n : Nat) : Nat := roundQuotient (allDigits n) (Nat.pow 10 (excess p n))

theorem significant_eq (p n : Nat) :
    significant p n = ofScaled (significand p n) ((excess p n : Int) - 1074) := rfl

/-- Rounding to seventeen digits or more moves a double by less than one part in
    `10 ^ 16`, and not at all if it has no more digits. -/
theorem exists_error {p : Nat} (hp : 17 ≤ p) (n : Nat) :
    ∃ δ, δ * 10 ^ 16 ≤ allDigits n ∧
      2 * (significand p n * Nat.pow 10 (excess p n)) ≤ 2 * allDigits n + δ ∧
      2 * allDigits n ≤ 2 * (significand p n * Nat.pow 10 (excess p n)) + δ := by
  unfold significand
  by_cases hexcess : excess p n = 0
  · refine ⟨0, by omega, ?_⟩
    rw [hexcess, Nat.pow_eq, Nat.pow_zero, roundQuotient_one]
    omega
  · refine ⟨Nat.pow 10 (excess p n), ?_, roundQuotient_error _ (ten_pow_pos _)⟩
    -- the digits that are not significant leave at least seventeen in front of them
    have hlength : ¬ (Nat.toDigits 10 (allDigits n)).length ≤ excess p n + 16 := by
      unfold excess at *
      omega
    rw [Nat.length_toDigits_le_iff (by decide) (by omega), Nat.not_lt, Nat.pow_add] at hlength
    exact hlength

/-! ## The double that is read back -/

/-- A decimal in units, scaled up by the digits of the least unit. -/
theorem ofDecimal_scaled (r k : Nat) :
    ofDecimal r ((k : Int) - 1074) = nearest false (r * Nat.pow 10 k) (Nat.pow 5 1074) := by
  obtain ⟨j, hj, hone⟩ : ∃ j : Nat, j = 1074 ∧ unitsPerOne * Nat.pow 5 j = Nat.pow 10 j := by
    unfold unitsPerOne
    generalize 1074 = j
    exact ⟨j, rfl, (Nat.mul_pow 2 5 j).symm⟩
  have hcast : ((k : Int) - 1074) = (k : Int) - (j : Int) := by omega
  have hpow : Nat.pow 10 ((k : Int) - j).toNat * Nat.pow 10 j =
      Nat.pow 10 k * Nat.pow 10 (-((k : Int) - j)).toNat := by
    simp only [Nat.pow_eq, ← Nat.pow_add]
    congr 1
    omega
  rw [hcast, ← hj, ofDecimal_eq, nearest, nearest]
  refine congrArg (ofCode false) (nearestCode_congr (ten_pow_pos _) (Nat.pow_pos (by decide)) ?_)
  rw [Nat.mul_assoc, hone, Nat.mul_assoc, hpow, Nat.mul_assoc]

/-- What differs from a double by less than one part in `10 ^ 16` is rounded to
    that double. -/
theorem nearestCode_of_error {c num den δ : Nat} (hc : c ≤ infinityCode) (hden : 0 < den)
    (hδ : δ * 10 ^ 16 ≤ unitsOfCode c * den) (hlow : 2 * (unitsOfCode c * den) ≤ 2 * num + δ)
    (hhigh : 2 * num ≤ 2 * (unitsOfCode c * den) + δ) : nearestCode num den = c := by
  have hbits : 2 * binadeSize = 2 ^ 53 := by decide
  have hstep : 0 < den * 2 ^ doublings (unitsOfCode c) := Nat.mul_pos hden (Nat.two_pow_pos _)
  have hscale (x : Nat) : x * 2 ^ doublings (unitsOfCode c) * den =
      x * (den * 2 ^ doublings (unitsOfCode c)) := by
    rw [Nat.mul_assoc, Nat.mul_comm (2 ^ _)]
  -- No double has more than `2 ^ 53` steps, so the error is less than one of them.
  have hupper : unitsOfCode c * den < 2 ^ 53 * (den * 2 ^ doublings (unitsOfCode c)) := by
    rw [← hbits, ← hscale]
    exact Nat.mul_lt_mul_of_pos_right (lt_two_pow_doublings _) hden
  refine nearestCode_of_close hc hden (by omega) (by omega) fun hedge => ?_
  -- The first double of a binade has `2 ^ 52` of them, so the error is less than a half.
  have hleast : unitsOfCode c * den = 2 ^ 52 * (den * 2 ^ doublings (unitsOfCode c)) :=
    (congrArg (· * den) hedge).trans (hscale _)
  omega

theorem fives_pos : 0 < Nat.pow 5 1074 := by
  generalize 1074 = k
  exact Nat.pow_pos (by decide)

/-- The significant digits of a double are nearer to it than to any other. -/
theorem ofDecimal_significand {p c : Nat} (hp : 17 ≤ p) (hc : c ≤ infinityCode) :
    ofDecimal (significand p (unitsOfCode c)) ((excess p (unitsOfCode c) : Int) - 1074) =
      ofCode false c := by
  obtain ⟨δ, hδ, hhigh, hlow⟩ := exists_error hp (unitsOfCode c)
  rw [ofDecimal_scaled, nearest]
  exact congrArg (ofCode false) (nearestCode_of_error hc fives_pos hδ hlow hhigh)

/-- The decimal of a double to seventeen digits or more is written as a literal
    with the value that it was made from. -/
theorem exists_numeral_write {p c : Nat} (hp : 17 ≤ p) (hc : c ≤ infinityCode) :
    ∃ n : Numeral, n.WellFormed ∧
      n.text = (resultLayout p).write (significant p (unitsOfCode c)) ∧
      n.value = ofCode false c := by
  have hwell : (significant p (unitsOfCode c)).WellFormed := wellFormed_ofScaled _ _
  have hdenoted := Layout.denoted_numeral (resultLayout p) hwell
  rw [significant_eq, denoted_ofScaled] at hdenoted
  exact ⟨(resultLayout p).numeral (significant p (unitsOfCode c)),
    Layout.wellFormed_numeral _ hwell, Layout.text_numeral rfl hwell,
    (Numeral.value_of_denoted hdenoted).trans (ofDecimal_significand hp hc)⟩

end Decimal

/-- The text of a finite double is a literal behind its sign. -/
theorem exists_resultChars_eq {p : Nat} (hp : 17 ≤ p) {x : Float} (hx : x.isFinite = true) :
    ∃ n : Numeral, n.WellFormed ∧
      resultChars p x = (if negative x then ['-'] else []) ++ n.text ∧
      (if negative x then -n.value else n.value) = x := by
  have hcode : code x < infinityCode := by
    rw [isFinite_eq] at hx
    unfold form at hx
    split at hx
    · next h => exact h
    · split at hx <;> cases hx
  obtain ⟨n, hwell, htext, hvalue⟩ := Decimal.exists_numeral_write hp (Nat.le_of_lt hcode)
  have hform : form x = .finite (negative x) (unitsOfCode (code x)) := by rw [form, if_pos hcode]
  have hp1 : max p 1 = p := Nat.max_eq_left (by omega)
  refine ⟨n, hwell, ?_, ?_⟩
  · rw [resultChars, hp1, hform, htext]
  · have hx' := ofCode_code (Nat.le_of_lt hcode)
    rw [hvalue]
    cases hs : negative x with
    | false => rwa [hs] at hx'
    | true =>
      rw [hs] at hx'
      exact (neg_ofCode false (Nat.le_of_lt hcode)).trans hx'

end Calculator
