import Mathlib.Algebra.Field.Rat
import Mathlib.Tactic.NormNum
import Mathlib.Tactic.Ring
import Calculator.Decimal.Layout
import Calculator.Proofs.Binary64.Decimals
import Calculator.Proofs.Decimal.Literal

/-! # What a written decimal denotes

    The text of a decimal is a literal (`Layout.text_numeral`,
    `Layout.wellFormed_numeral`), and this literal denotes the same number as
    the decimal (`Layout.denoted_numeral`), whichever notation the layout
    chooses for it. Neither the zeros that are trimmed from the digits nor those
    that are filled in around the point change what is denoted.
-/

namespace Calculator

/-! ## Numbers that are denoted -/

/-- The number that a decimal denotes. -/
def Decimal.denoted (d : Decimal) : ℚ :=
  (Nat.ofDigitChars 10 d.digits 0 : Nat) * 10 ^ (d.exponent + 1 - (d.digits.length : Nat))

/-- The number that a literal denotes. -/
def Numeral.denoted (n : Numeral) : ℚ := n.significand * 10 ^ n.scale

/-- The value of a literal is that of any decimal for the same number. -/
theorem Numeral.value_of_denoted {n : Numeral} {m : Nat} {e : Int}
    (h : n.denoted = (m : ℚ) * 10 ^ e) : n.value = Binary64.ofDecimal m e :=
  Binary64.ofDecimal_congr h

/-- Zeros at the end of a row of digits move into the exponent. -/
theorem ofDigitChars_zeros (digits : List Char) (k : Nat) (e : Int) :
    ((Nat.ofDigitChars 10 (digits ++ List.replicate k '0') 0 : Nat) : ℚ) * 10 ^ e =
      (Nat.ofDigitChars 10 digits 0 : Nat) * 10 ^ (e + k) := by
  rw [Nat.ofDigitChars_append, Nat.ofDigitChars_replicate_zero, zpow_add₀ (by norm_num),
    zpow_natCast]
  push_cast
  ring

/-- Zeros in front of a row of digits do not count. -/
theorem ofDigitChars_leading (k : Nat) (digits : List Char) :
    Nat.ofDigitChars 10 (List.replicate k '0' ++ digits) 0 = Nat.ofDigitChars 10 digits 0 := by
  rw [Nat.ofDigitChars_append, Nat.ofDigitChars_replicate_zero, Nat.mul_zero]

/-! ## Decimals -/

/-- A decimal with at least one digit. -/
structure Decimal.WellFormed (d : Decimal) : Prop where
  nonempty : d.digits ≠ []
  digits : ∀ c ∈ d.digits, c.isDigit

namespace Decimal

theorem exists_trimZeros (digits : List Char) :
    ∃ k, digits = trimZeros digits ++ List.replicate k '0' := by
  refine ⟨(digits.reverse.takeWhile (· = '0')).length, ?_⟩
  have hzeros : digits.reverse.takeWhile (· = '0') =
      List.replicate (digits.reverse.takeWhile (· = '0')).length '0' := by
    refine List.eq_replicate_iff.2 ⟨rfl, fun c hc => ?_⟩
    simpa using List.all_eq_true.1 List.all_takeWhile c hc
  have hsplit := List.takeWhile_append_dropWhile (p := (· = '0')) (l := digits.reverse)
  rw [trimZeros, ← List.reverse_replicate, ← hzeros, ← List.reverse_append, hsplit,
    List.reverse_reverse]

theorem wellFormed_ofScaled (c : Nat) (e : Int) : (ofScaled c e).WellFormed := by
  unfold ofScaled
  by_cases hc : c = 0
  · rw [if_pos hc]
    exact ⟨List.cons_ne_nil _ _, List.forall_mem_singleton.2 rfl⟩
  · rw [if_neg hc]
    obtain ⟨k, hk⟩ := exists_trimZeros (Nat.toDigits 10 c)
    refine ⟨fun hnil => hc ?_, fun d hd => ?_⟩
    · -- the zeros alone would make the number zero
      dsimp only at hnil
      rw [hnil, List.nil_append] at hk
      rw [← Nat.ofDigitChars_toDigits (b := 10) (n := c) (by decide) (by decide), hk,
        Nat.ofDigitChars_replicate_zero, Nat.mul_zero]
    · have hmem : d ∈ Nat.toDigits 10 c := by
        rw [hk]
        exact List.mem_append_left _ hd
      exact Nat.isDigit_of_mem_toDigits (by decide) (by decide) hmem

theorem denoted_ofScaled (c : Nat) (e : Int) : (ofScaled c e).denoted = (c : ℚ) * 10 ^ e := by
  unfold ofScaled
  by_cases hc : c = 0
  · rw [if_pos hc, hc]
    simp [denoted, zero, Nat.ofDigitChars_cons]
  · obtain ⟨k, hk⟩ := exists_trimZeros (Nat.toDigits 10 c)
    have hvalue := Nat.ofDigitChars_toDigits (b := 10) (n := c) (by decide) (by decide)
    have hlength := congrArg List.length hk
    rw [List.length_append, List.length_replicate] at hlength
    rw [if_neg hc, denoted]
    dsimp only
    generalize trimZeros (Nat.toDigits 10 c) = digits at *
    rw [hlength, ← hvalue, hk, ofDigitChars_zeros]
    congr 2
    push_cast
    ring

end Decimal

/-! ## Literals from their parts -/

namespace Numeral

/-- A literal that shows its point only if digits follow it. -/
def ofParts (whole fraction : List Char) (exponent : Option Exponent) : Numeral :=
  ⟨whole, if fraction = [] then none else some fraction, exponent⟩

variable {whole fraction : List Char} {exponent : Option Exponent}

theorem getD_fraction_ofParts : (ofParts whole fraction exponent).fraction.getD [] = fraction := by
  unfold ofParts
  dsimp only
  split
  · next h => exact h.symm
  · rfl

theorem significand_ofParts :
    (ofParts whole fraction exponent).significand =
      Nat.ofDigitChars 10 (whole ++ fraction) 0 := by
  rw [significand, getD_fraction_ofParts]
  rfl

theorem scale_ofParts :
    (ofParts whole fraction exponent).scale =
      exponent.elim 0 Exponent.value - (fraction.length : Nat) := by
  rw [scale, getD_fraction_ofParts]
  rfl

theorem wellFormed_ofParts (hne : whole ≠ []) (hwhole : ∀ c ∈ whole, c.isDigit)
    (hfraction : ∀ c ∈ fraction, c.isDigit) (hexponent : ∀ e, exponent = some e → e.WellFormed) :
    (ofParts whole fraction exponent).WellFormed where
  whole := hwhole
  fraction := by
    intro digits h
    unfold ofParts at h
    dsimp only at h
    split at h
    · cases h
    · cases h
      exact hfraction
  nonempty := fun h => hne (List.append_eq_nil_iff.1 h).1
  exponent := hexponent

theorem text_ofParts :
    (ofParts whole fraction exponent).text =
      whole ++ (if fraction = [] then [] else '.' :: fraction) ++
        exponent.elim [] Exponent.text := by
  unfold ofParts text
  dsimp only
  split <;> rfl

end Numeral

/-! ## Layouts -/

namespace Layout

/-- The exponent of a decimal in scientific notation. -/
def exponentPart (e : Int) : Exponent :=
  let digits := Nat.toDigits 10 e.natAbs
  ⟨'e', some (if e < 0 then '-' else '+'), List.replicate (2 - digits.length) '0' ++ digits⟩

/-- A decimal in scientific notation, as a literal. -/
def scientificNumeral (d : Decimal) : Numeral :=
  .ofParts (d.digits.take 1) (d.digits.drop 1) (some (exponentPart d.exponent))

/-- A decimal in positional notation, as a literal. -/
def positionalNumeral (d : Decimal) : Numeral :=
  if d.exponent < 0 then
    .ofParts ['0'] (List.replicate (-d.exponent - 1).toNat '0' ++ d.digits) none
  else
    let places := d.exponent.toNat + 1
    .ofParts (d.digits.take places ++ List.replicate (places - d.digits.length) '0')
      (d.digits.drop places) none

/-- The literal that the text of a decimal is. -/
def numeral (l : Layout) (d : Decimal) : Numeral :=
  if -4 ≤ d.exponent && d.exponent < l.positionalBelow then positionalNumeral d
  else scientificNumeral d

variable {d : Decimal}

/-! ### The exponent -/

theorem text_exponentPart (e : Int) : (exponentPart e).text = 'e' :: exponentText e := rfl

theorem wellFormed_exponentPart (e : Int) : (exponentPart e).WellFormed where
  letter := .inl rfl
  sign := by
    intro c h
    cases h
    split
    · exact .inr rfl
    · exact .inl rfl
  nonempty := fun h => Nat.toDigits_ne_nil (List.append_eq_nil_iff.1 h).2
  digits := by
    intro c hc
    obtain hc | hc := List.mem_append.1 hc
    · rw [(List.mem_replicate.1 hc).2]
      rfl
    · exact Nat.isDigit_of_mem_toDigits (by decide) (by decide) hc

theorem value_exponentPart (e : Int) : (exponentPart e).value = e := by
  have hdigits : Nat.ofDigitChars 10 (exponentPart e).digits 0 = e.natAbs := by
    rw [exponentPart, ofDigitChars_leading]
    exact Nat.ofDigitChars_toDigits (by decide) (by decide)
  rw [Exponent.value, hdigits]
  by_cases he : e < 0
  · have hsign : (exponentPart e).sign = some '-' := congrArg some (if_pos he)
    rw [if_pos hsign]
    omega
  · have hsign : (exponentPart e).sign = some '+' := congrArg some (if_neg he)
    rw [hsign, if_neg (by decide)]
    omega

/-! ### The two notations -/

theorem text_scientificNumeral (d : Decimal) : (scientificNumeral d).text = scientific d := by
  rw [scientificNumeral, Numeral.text_ofParts, Option.elim_some, text_exponentPart]
  rfl

theorem denoted_scientificNumeral (h : d.WellFormed) :
    (scientificNumeral d).denoted = d.denoted := by
  have hpos := List.length_pos_iff.2 h.nonempty
  rw [Numeral.denoted, scientificNumeral, Numeral.significand_ofParts, Numeral.scale_ofParts,
    List.take_append_drop, Option.elim_some, value_exponentPart, List.length_drop, Decimal.denoted]
  congr 2
  omega

theorem text_positionalNumeral (h : d.WellFormed) :
    (positionalNumeral d).text = positional [] d := by
  unfold positionalNumeral positional
  by_cases he : d.exponent < 0
  · rw [if_pos he, if_pos he, Numeral.text_ofParts, if_neg]
    · simp
    · simp [h.nonempty]
  · rw [if_neg he, if_neg he]
    dsimp only
    rw [Numeral.text_ofParts, Option.elim_none, List.append_nil]
    cases d.digits.drop (d.exponent.toNat + 1) with
    | nil => rw [if_pos rfl]
    | cons c fraction => rw [if_neg (List.cons_ne_nil c fraction)]

theorem denoted_positionalNumeral (d : Decimal) : (positionalNumeral d).denoted = d.denoted := by
  unfold positionalNumeral
  by_cases he : d.exponent < 0
  · -- the zeros behind the point are counted by the exponent
    rw [if_pos he, Numeral.denoted, Numeral.significand_ofParts, Numeral.scale_ofParts,
      Decimal.denoted]
    have hleading := ofDigitChars_leading (1 + (-d.exponent - 1).toNat) d.digits
    rw [← List.replicate_append_replicate, List.append_assoc] at hleading
    show ((Nat.ofDigitChars 10 (List.replicate 1 '0' ++ _) 0 : Nat) : ℚ) * _ = _
    rw [hleading, List.length_append, List.length_replicate]
    congr 2
    show (0 : Int) - _ = _
    omega
  · rw [if_neg he, Numeral.denoted, Numeral.significand_ofParts, Numeral.scale_ofParts,
      Decimal.denoted, List.length_drop]
    show _ * (10 : ℚ) ^ ((0 : Int) - _) = _
    by_cases hlong : d.exponent.toNat + 1 ≤ d.digits.length
    · rw [Nat.sub_eq_zero_of_le hlong, List.replicate_zero, List.append_nil,
        List.take_append_drop]
      congr 2
      omega
    · -- zeros are filled in up to the point
      rw [List.drop_of_length_le (by omega), List.take_of_length_le (by omega), List.append_nil,
        ofDigitChars_zeros]
      congr 2
      omega

/-! ### The text of a decimal -/

theorem text_numeral {l : Layout} (hmark : l.wholeMark = []) (h : d.WellFormed) :
    (l.numeral d).text = l.write d := by
  unfold numeral write
  rw [hmark]
  split
  · exact text_positionalNumeral h
  · exact text_scientificNumeral d

theorem wellFormed_numeral (l : Layout) (h : d.WellFormed) : (l.numeral d).WellFormed := by
  have htake {k : Nat} : ∀ c ∈ d.digits.take k, c.isDigit := fun c hc =>
    h.digits c (List.mem_of_mem_take hc)
  have hdrop {k : Nat} : ∀ c ∈ d.digits.drop k, c.isDigit := fun c hc =>
    h.digits c (List.mem_of_mem_drop hc)
  have hzeros {k : Nat} : ∀ c ∈ List.replicate k '0', c.isDigit := by
    intro c hc
    rw [(List.mem_replicate.1 hc).2]
    rfl
  have hnonempty {k : Nat} : d.digits.take (k + 1) ≠ [] := by simp [h.nonempty]
  unfold numeral
  split
  · unfold positionalNumeral
    split
    · refine Numeral.wellFormed_ofParts (List.cons_ne_nil _ _) (List.forall_mem_singleton.2 rfl)
        (fun c hc => ?_) nofun
      exact (List.mem_append.1 hc).elim (hzeros c) (h.digits c)
    · refine Numeral.wellFormed_ofParts ?_ (fun c hc => ?_) hdrop nofun
      · exact fun hnil => hnonempty (List.append_eq_nil_iff.1 hnil).1
      · exact (List.mem_append.1 hc).elim (htake c) (hzeros c)
  · refine Numeral.wellFormed_ofParts hnonempty htake hdrop ?_
    rintro e ⟨⟩
    exact wellFormed_exponentPart _

theorem denoted_numeral (l : Layout) (h : d.WellFormed) : (l.numeral d).denoted = d.denoted := by
  unfold numeral
  split
  · exact denoted_positionalNumeral d
  · exact denoted_scientificNumeral h

end Layout

end Calculator
