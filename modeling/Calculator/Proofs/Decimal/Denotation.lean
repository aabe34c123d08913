import Mathlib.Data.List.Induction
import Mathlib.Data.Nat.Digits.Defs
import Mathlib.Tactic.FieldSimp
import Mathlib.Tactic.Positivity
import Calculator.Proofs.Decimal.Language
import Calculator.Proofs.Decimal.Layout

/-! # The number that a literal denotes

    `NumberDenotes` gives every number literal the rational number that it is the
    usual notation of, following the way the literal is built up (`IsNumber`): a
    digit counts by its position, digits behind the point are divided by a power of
    ten, and the exponent scales what is in front of it. What the scanner takes a
    literal apart for is this number (`numberDenotes_iff`), and there is only one
    (`NumberDenotes.unique`).
-/

namespace Calculator

/-- The number that decimal digits stand for, the last one for the units. -/
def digitsValue (w : List Char) : Nat :=
  Nat.ofDigits 10 (w.reverse.map fun c => c.toNat - '0'.toNat)

/-- What a literal without an exponent denotes. -/
inductive MantissaDenotes : List Char → ℚ → Prop where
  | digits {w : List Char} (h : IsDigits w) : MantissaDenotes w (digitsValue w)
  | pointed {w f : List Char} (h : IsDigits w) (hf : ∀ c ∈ f, c.isDigit) :
    MantissaDenotes (w ++ '.' :: f) (digitsValue w + digitsValue f / 10 ^ f.length)
  | fraction {f : List Char} (h : IsDigits f) :
    MantissaDenotes ('.' :: f) (digitsValue f / 10 ^ f.length)

/-- The power of ten that an exponent stands for. -/
inductive ExponentDenotes : List Char → ℤ → Prop where
  | unsigned {letter : Char} {w : List Char} (hletter : letter = 'e' ∨ letter = 'E')
    (h : IsDigits w) : ExponentDenotes (letter :: w) (digitsValue w)
  | plus {letter : Char} {w : List Char} (hletter : letter = 'e' ∨ letter = 'E')
    (h : IsDigits w) : ExponentDenotes (letter :: '+' :: w) (digitsValue w)
  | minus {letter : Char} {w : List Char} (hletter : letter = 'e' ∨ letter = 'E')
    (h : IsDigits w) : ExponentDenotes (letter :: '-' :: w) (-digitsValue w)

/-- What a number literal denotes. -/
inductive NumberDenotes : List Char → ℚ → Prop where
  | plain {m : List Char} {q : ℚ} (h : MantissaDenotes m q) : NumberDenotes m q
  | scaled {m e : List Char} {q : ℚ} {x : ℤ} (h : MantissaDenotes m q)
    (he : ExponentDenotes e x) : NumberDenotes (m ++ e) (q * 10 ^ x)

/-! ## Rows of digits -/

theorem ofDigitChars_eq_digitsValue (w : List Char) : Nat.ofDigitChars 10 w 0 = digitsValue w := by
  induction w using List.reverseRecOn with
  | nil => rfl
  | append_singleton w c ih =>
    rw [Nat.ofDigitChars_append, ih, digitsValue, digitsValue, List.reverse_append,
      List.reverse_singleton, List.singleton_append, List.map_cons, Nat.ofDigits_cons]
    simp [Nat.ofDigitChars_cons, Nat.add_comm]

/-- Digits in front of others count by a power of ten. -/
theorem digitsValue_append (w f : List Char) :
    digitsValue (w ++ f) = digitsValue w * 10 ^ f.length + digitsValue f := by
  rw [digitsValue, List.reverse_append, List.map_append, Nat.ofDigits_append, List.length_map,
    List.length_reverse, Nat.add_comm, Nat.mul_comm]
  rfl

/-! ## The parts of a literal -/

/-- The power of ten of an exponent, in the signs that it can have. -/
theorem Exponent.value_eq (e : Exponent) :
    e.value = if e.sign = some '-' then -(digitsValue e.digits : ℤ) else digitsValue e.digits := by
  rw [value, ofDigitChars_eq_digitsValue]

/-- What a literal denotes in front of its exponent. -/
def Numeral.mantissa (n : Numeral) : ℚ :=
  digitsValue n.whole + digitsValue (n.fraction.getD []) / 10 ^ (n.fraction.getD []).length

theorem Numeral.denoted_eq (n : Numeral) :
    n.denoted = n.mantissa * 10 ^ n.exponent.elim 0 Exponent.value := by
  rw [denoted, scale, significand, mantissa, ofDigitChars_eq_digitsValue, digitsValue_append,
    zpow_sub₀ (by norm_num), zpow_natCast]
  have hpow : (10 : ℚ) ^ (n.fraction.getD []).length ≠ 0 := by positivity
  push_cast
  field_simp

/-! ## The scanned parts -/

theorem exponentDenotes_iff {w : List Char} {x : ℤ} :
    ExponentDenotes w x ↔ ∃ e : Exponent, e.WellFormed ∧ e.text = w ∧ e.value = x := by
  constructor
  · rintro (⟨hletter, h⟩ | ⟨hletter, h⟩ | ⟨hletter, h⟩)
    · exact ⟨⟨_, none, _⟩, ⟨hletter, nofun, h.1, h.2⟩, rfl, Exponent.value_eq _⟩
    · refine ⟨⟨_, some '+', _⟩, ⟨hletter, ?_, h.1, h.2⟩, rfl, Exponent.value_eq _⟩
      rintro _ ⟨⟩
      exact .inl rfl
    · refine ⟨⟨_, some '-', _⟩, ⟨hletter, ?_, h.1, h.2⟩, rfl, Exponent.value_eq _⟩
      rintro _ ⟨⟩
      exact .inr rfl
  · rintro ⟨⟨letter, sign, digits⟩, h, rfl, rfl⟩
    rw [Exponent.value_eq]
    cases sign with
    | none => exact .unsigned h.letter ⟨h.nonempty, h.digits⟩
    | some sign =>
      obtain rfl | rfl := h.sign sign rfl
      · exact .plus h.letter ⟨h.nonempty, h.digits⟩
      · exact .minus h.letter ⟨h.nonempty, h.digits⟩

theorem mantissaDenotes_iff {w : List Char} {q : ℚ} : MantissaDenotes w q ↔
    ∃ whole fraction, (⟨whole, fraction, none⟩ : Numeral).WellFormed ∧
      whole ++ fraction.elim [] ('.' :: ·) = w ∧
      (⟨whole, fraction, none⟩ : Numeral).mantissa = q := by
  have hnil : digitsValue [] = 0 := rfl
  constructor
  · rintro (h | ⟨h, hf⟩ | h)
    · exact ⟨w, none, ⟨h.2, nofun, by simpa using h.1, nofun⟩, by simp,
        by simp [Numeral.mantissa, hnil]⟩
    · refine ⟨_, some _, ⟨h.2, ?_, by simp [h.1], nofun⟩, rfl, rfl⟩
      rintro _ ⟨⟩
      exact hf
    · refine ⟨[], some _, ⟨nofun, ?_, by simpa using h.1, nofun⟩, rfl,
        by simp [Numeral.mantissa, hnil]⟩
      rintro _ ⟨⟩
      exact h.2
  · rintro ⟨whole, fraction, h, rfl, rfl⟩
    cases fraction with
    | none =>
      have hwhole : IsDigits whole := ⟨by simpa using h.nonempty, h.whole⟩
      simpa [Numeral.mantissa, hnil] using MantissaDenotes.digits hwhole
    | some digits =>
      by_cases hwhole : whole = []
      · subst hwhole
        have hdigits : IsDigits digits := ⟨by simpa using h.nonempty, h.fraction digits rfl⟩
        simpa [Numeral.mantissa, hnil] using MantissaDenotes.fraction hdigits
      · exact .pointed ⟨hwhole, h.whole⟩ (h.fraction digits rfl)

/-! ## Literals -/

/-- What stands in front of an exponent is a literal too. -/
theorem Numeral.WellFormed.without_exponent {whole : List Char} {fraction : Option (List Char)}
    {exponent : Option Exponent} (h : (⟨whole, fraction, exponent⟩ : Numeral).WellFormed) :
    (⟨whole, fraction, none⟩ : Numeral).WellFormed :=
  ⟨h.whole, h.fraction, h.nonempty, by simp⟩

/-- A literal denotes the number that its parts give. -/
theorem numberDenotes_iff {w : List Char} {q : ℚ} :
    NumberDenotes w q ↔ ∃ n : Numeral, n.WellFormed ∧ n.text = w ∧ n.denoted = q := by
  constructor
  · rintro (h | ⟨h, he⟩)
    · obtain ⟨whole, fraction, hn, rfl, rfl⟩ := mantissaDenotes_iff.1 h
      exact ⟨_, hn, by simp [Numeral.text], by simp [Numeral.denoted_eq]⟩
    · obtain ⟨whole, fraction, hn, rfl, rfl⟩ := mantissaDenotes_iff.1 h
      obtain ⟨e, hwell, rfl, rfl⟩ := exponentDenotes_iff.1 he
      refine ⟨⟨whole, fraction, some e⟩, ⟨hn.whole, hn.fraction, hn.nonempty, ?_⟩, rfl,
        Numeral.denoted_eq _⟩
      rintro _ ⟨⟩
      exact hwell
  · rintro ⟨⟨whole, fraction, exponent⟩, h, rfl, rfl⟩
    rw [Numeral.denoted_eq]
    have hm : MantissaDenotes (whole ++ fraction.elim [] ('.' :: ·))
        (⟨whole, fraction, none⟩ : Numeral).mantissa :=
      mantissaDenotes_iff.2 ⟨whole, fraction, h.without_exponent, rfl, rfl⟩
    cases exponent with
    | none => simpa [Numeral.text, Numeral.mantissa] using NumberDenotes.plain hm
    | some e => exact .scaled hm (exponentDenotes_iff.2 ⟨e, h.exponent e rfl, rfl, rfl⟩)

/-- A text denotes at most one number. -/
theorem NumberDenotes.unique {w : List Char} {q q' : ℚ} (h : NumberDenotes w q)
    (h' : NumberDenotes w q') : q = q' := by
  obtain ⟨n, hn, rfl, rfl⟩ := numberDenotes_iff.1 h
  obtain ⟨n', hn', htext, rfl⟩ := numberDenotes_iff.1 h'
  have hscan := Numeral.scan?_text hn
  rw [← htext, Numeral.scan?_text hn'] at hscan
  rw [Option.some.inj hscan]

end Calculator
