import Mathlib.Tactic.Ring
import Calculator.CrossCheck.Sample
import Calculator.Proofs.Binary64.Decimals
import Calculator.Proofs.Decimal.Literal

/-! # The numbers in samples

    Each number of a sample is a literal in both notations (`Literal.numeral`,
    `Literal.referenceNumeral`), with the same value: a place behind the point
    that holds a zero does not matter (`ofDecimal_tenfold`).
-/

namespace Calculator

/-! ## A zero behind the point -/

namespace Binary64

/-- A number with a zero behind the point is the number without it. -/
theorem ofDecimal_tenfold (n : Nat) : ofDecimal (10 * n) (-1) = ofDecimal n 0 := by
  refine ofDecimal_congr ?_
  rw [zpow_neg_one, zpow_zero, mul_one]
  push_cast
  ring

end Binary64

namespace CrossCheck.Literal

/-! ## Literals in two notations -/

theorem toList_toString (n : Nat) : (toString n).toList = Nat.toDigits 10 n :=
  Nat.toList_repr

theorem isDigit_of_mem_toString {n : Nat} {c : Char} (h : c ∈ (toString n).toList) :
    c.isDigit := by
  rw [toList_toString] at h
  exact Nat.isDigit_of_mem_toDigits (by decide) (by decide) h

/-- The digits of the literal, in the calculator's notation. -/
def numeral : Literal → Numeral
  | .whole n => ⟨(toString n).toList, none, none⟩
  | .hundredths n =>
    ⟨(toString (n / 100)).toList,
      some ((toString (n / 10 % 10)).toList ++ (toString (n % 10)).toList), none⟩
  | .tenth n => ⟨[], some (toString n).toList, none⟩

/-- The digits of the literal, in the bracketed notation. -/
def referenceNumeral : Literal → Numeral
  | .whole n => ⟨(toString n).toList, some ['0'], none⟩
  | l => l.numeral

theorem text_numeral (l : Literal) : l.numeral.text = l.code.toList := by
  cases l <;> simp [numeral, Numeral.text, code]

theorem text_referenceNumeral (l : Literal) : l.referenceNumeral.text = l.reference.toList := by
  cases l with
  | whole n => simp [referenceNumeral, Numeral.text, reference]
  | hundredths n => exact text_numeral (.hundredths n)
  | tenth n => exact text_numeral (.tenth n)

theorem wellFormed_numeral (l : Literal) : l.numeral.WellFormed where
  whole := by
    intro c hc
    cases l with
    | whole n | hundredths n => exact isDigit_of_mem_toString hc
    | tenth n => cases hc
  fraction := by
    intro digits hdigits c hc
    cases l with
    | whole n => cases hdigits
    | hundredths n =>
      cases hdigits
      rcases List.mem_append.1 hc with hc | hc <;> exact isDigit_of_mem_toString hc
    | tenth n =>
      cases hdigits
      exact isDigit_of_mem_toString hc
  nonempty := by cases l <;> simp [numeral]
  exponent := by
    intro e he
    cases l <;> cases he

theorem wellFormed_referenceNumeral (l : Literal) : l.referenceNumeral.WellFormed := by
  cases l with
  | whole n =>
    refine ⟨(wellFormed_numeral (.whole n)).whole, ?_, by simp [referenceNumeral], nofun⟩
    rintro _ ⟨⟩ c hc
    rw [List.mem_singleton.1 hc]
    rfl
  | hundredths n => exact wellFormed_numeral (.hundredths n)
  | tenth n => exact wellFormed_numeral (.tenth n)

/-- Both notations of a number have the same value. -/
theorem value_referenceNumeral (l : Literal) : l.referenceNumeral.value = l.numeral.value := by
  cases l with
  | whole n =>
    have hdigits : Nat.ofDigitChars 10 (toString n).toList 0 = n := by
      rw [toList_toString]
      exact Nat.ofDigitChars_toDigits (by decide) (by decide)
    have hzero : Nat.ofDigitChars 10 ((toString n).toList ++ ['0']) 0 = 10 * n := by
      rw [Nat.ofDigitChars_append, hdigits, Nat.ofDigitChars_cons]
      rfl
    show Binary64.ofDecimal (Nat.ofDigitChars 10 ((toString n).toList ++ ['0']) 0) (-1) =
      Binary64.ofDecimal (Nat.ofDigitChars 10 ((toString n).toList ++ []) 0) 0
    rw [hzero, List.append_nil, hdigits, Binary64.ofDecimal_tenfold]
  | hundredths | tenth => rfl

theorem value_eq (l : Literal) : l.value = l.numeral.value := by
  rw [value, ← text_referenceNumeral, Numeral.scan?_text (wellFormed_referenceNumeral l)]
  exact value_referenceNumeral l

end CrossCheck.Literal

end Calculator
