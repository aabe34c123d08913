import Calculator.Proofs.Decimal.Literal

/-! # The language of number literals

    `IsNumber` says which texts are number literals, without a word on how they
    are found: digits that may hold a point, with an exponent behind them or not.
    It is the language of the numerals (`isNumber_iff`), and the scanner takes a
    literal that no other one goes beyond (`Numeral.text_longest`).
-/

namespace Calculator

/-! ## The language -/

/-- ASCII digits, at least one. -/
def IsDigits (w : List Char) : Prop := w ≠ [] ∧ ∀ c ∈ w, c.isDigit

/-- A literal without an exponent. -/
inductive IsMantissa : List Char → Prop where
  | digits {w : List Char} (h : IsDigits w) : IsMantissa w
  /-- A point behind digits, with more digits behind it or not. -/
  | pointed {w f : List Char} (h : IsDigits w) (hf : ∀ c ∈ f, c.isDigit) :
    IsMantissa (w ++ '.' :: f)
  | fraction {f : List Char} (h : IsDigits f) : IsMantissa ('.' :: f)

/-- A letter and digits, which may have a sign. -/
inductive IsExponent : List Char → Prop where
  | unsigned {letter : Char} {w : List Char} (hletter : letter = 'e' ∨ letter = 'E')
    (h : IsDigits w) : IsExponent (letter :: w)
  | signed {letter sign : Char} {w : List Char} (hletter : letter = 'e' ∨ letter = 'E')
    (hsign : sign = '+' ∨ sign = '-') (h : IsDigits w) : IsExponent (letter :: sign :: w)

/-- A number literal. -/
inductive IsNumber : List Char → Prop where
  | plain {m : List Char} (h : IsMantissa m) : IsNumber m
  | scaled {m e : List Char} (h : IsMantissa m) (he : IsExponent e) : IsNumber (m ++ e)

/-! ## Texts of numerals -/

theorem isExponent_iff {w : List Char} :
    IsExponent w ↔ ∃ e : Exponent, e.WellFormed ∧ e.text = w := by
  constructor
  · rintro (⟨hletter, h⟩ | ⟨hletter, hsign, h⟩)
    · exact ⟨⟨_, none, _⟩, ⟨hletter, nofun, h.1, h.2⟩, rfl⟩
    · refine ⟨⟨_, some _, _⟩, ⟨hletter, ?_, h.1, h.2⟩, rfl⟩
      rintro _ ⟨⟩
      exact hsign
  · rintro ⟨⟨letter, sign, digits⟩, h, rfl⟩
    cases sign with
    | none => exact .unsigned h.letter ⟨h.nonempty, h.digits⟩
    | some sign => exact .signed h.letter (h.sign sign rfl) ⟨h.nonempty, h.digits⟩

/-- Digits and a point are the text of a numeral without an exponent. -/
theorem isMantissa_iff {w : List Char} : IsMantissa w ↔
    ∃ whole fraction, (⟨whole, fraction, none⟩ : Numeral).WellFormed ∧
      whole ++ fraction.elim [] ('.' :: ·) = w := by
  constructor
  · rintro (h | ⟨h, hf⟩ | h)
    · exact ⟨w, none, ⟨h.2, nofun, by simpa using h.1, nofun⟩, by simp⟩
    · refine ⟨_, some _, ⟨h.2, ?_, by simp [h.1], nofun⟩, rfl⟩
      rintro _ ⟨⟩
      exact hf
    · refine ⟨[], some _, ⟨nofun, ?_, by simpa using h.1, nofun⟩, rfl⟩
      rintro _ ⟨⟩
      exact h.2
  · rintro ⟨whole, fraction, h, rfl⟩
    cases fraction with
    | none =>
      simp only [Option.elim_none, List.append_nil]
      exact .digits ⟨by simpa using h.nonempty, h.whole⟩
    | some digits =>
      by_cases hwhole : whole = []
      · subst hwhole
        exact .fraction ⟨by simpa using h.nonempty, h.fraction digits rfl⟩
      · exact .pointed ⟨hwhole, h.whole⟩ (h.fraction digits rfl)

theorem isNumber_iff {w : List Char} : IsNumber w ↔ ∃ n : Numeral, n.WellFormed ∧ n.text = w := by
  constructor
  · rintro (h | ⟨h, he⟩)
    · obtain ⟨whole, fraction, hn, rfl⟩ := isMantissa_iff.1 h
      exact ⟨_, hn, by simp [Numeral.text]⟩
    · obtain ⟨whole, fraction, hn, rfl⟩ := isMantissa_iff.1 h
      obtain ⟨e, hwell, rfl⟩ := isExponent_iff.1 he
      refine ⟨⟨whole, fraction, some e⟩, ⟨hn.whole, hn.fraction, hn.nonempty, ?_⟩, rfl⟩
      rintro _ ⟨⟩
      exact hwell
  · rintro ⟨⟨whole, fraction, exponent⟩, h, rfl⟩
    have hm : IsMantissa (whole ++ fraction.elim [] ('.' :: ·)) :=
      isMantissa_iff.2
        ⟨whole, fraction, ⟨h.whole, h.fraction, h.nonempty, fun _ he => by cases he⟩, rfl⟩
    cases exponent with
    | none => simpa [Numeral.text] using IsNumber.plain hm
    | some e => exact .scaled hm (isExponent_iff.2 ⟨e, h.exponent e rfl, rfl⟩)

/-! ## The scanned literal is the longest one -/

/-- A run of digits reaches over all digits that are known to be there. -/
theorem takeWhile_digits_append {run : List Char} (h : ∀ c ∈ run, c.isDigit) (z : List Char) :
    (run ++ z).takeWhile Char.isDigit = run ++ z.takeWhile Char.isDigit :=
  List.takeWhile_append_of_pos h

namespace Exponent

variable {e : Exponent}

/-- An exponent at the start of a text is found, with any digits that continue it. -/
theorem scan?_of_text (h : e.WellFormed) (z : List Char) :
    scan? (e.text ++ z) = some { e with digits := e.digits ++ z.takeWhile Char.isDigit } := by
  rw [text, List.cons_append, scan?_cons, if_pos h.letter, splitSign_text h]
  dsimp only
  rw [takeWhile_digits_append h.digits, if_neg (by simp [h.nonempty])]

end Exponent

namespace Numeral

variable {n : Numeral}

/-- No digit and no point begins an exponent. -/
theorem undigited_exponent {e : Exponent} (h : e.WellFormed) (z : List Char) :
    Undigited (e.text ++ z) ∧ scanFraction? (e.text ++ z) = none := by
  have hletter := h.letter
  rw [Exponent.text, List.cons_append]
  generalize e.letter = letter at hletter
  obtain rfl | rfl := hletter
  all_goals exact ⟨by rintro _ _ ⟨⟩; decide, rfl⟩

/-- A literal at the start of a text is found, or a longer one is. -/
theorem text_longest (h : n.WellFormed) (z : List Char) :
    ∃ n', scan? (n.text ++ z) = some n' ∧ n.text <+: n'.text := by
  obtain ⟨whole, fraction, exponent⟩ := n
  have hpoint : ∀ cs, Undigited ('.' :: cs) := by
    rintro cs _ _ ⟨⟩
    decide
  cases fraction with
  | none =>
    have hwhole : whole ≠ [] := by simpa using h.nonempty
    cases exponent with
    | none =>
      -- digits alone: more digits, a point and an exponent may follow
      have htake := takeWhile_digits_append h.whole z
      simp only [text, scan?, Option.elim_none, List.append_nil, htake]
      rw [if_neg (by simp [hwhole])]
      exact ⟨_, rfl, by simp⟩
    | some e =>
      obtain ⟨hundigited, hfraction⟩ := undigited_exponent (h.exponent e rfl) z
      obtain ⟨htake, hdrop⟩ := takeWhile_run h.whole hundigited
      have hexponent := Exponent.scan?_of_text (h.exponent e rfl) z
      simp only [text, scan?, Option.elim_none, Option.elim_some, List.append_nil,
        List.append_assoc, htake, hdrop, hfraction, List.drop_zero, hexponent]
      rw [if_neg (by simp [hwhole])]
      exact ⟨_, rfl, by simp [Exponent.text]⟩
  | some digits =>
    have hdigits := h.fraction digits rfl
    cases exponent with
    | none =>
      obtain ⟨htake, hdrop⟩ := takeWhile_run h.whole (hpoint (digits ++ z))
      have hfraction := takeWhile_digits_append hdigits z
      simp only [text, scan?, Option.elim_none, Option.elim_some, List.append_nil,
        List.append_assoc, List.cons_append, htake, hdrop, scanFraction?, hfraction]
      rw [if_neg fun hnil => h.nonempty (by simp_all)]
      exact ⟨_, rfl, by simp⟩
    | some e =>
      obtain ⟨hundigited, -⟩ := undigited_exponent (h.exponent e rfl) z
      obtain ⟨htake, hdrop⟩ := takeWhile_run h.whole (hpoint (digits ++ (e.text ++ z)))
      obtain ⟨hfraction, -⟩ := takeWhile_run hdigits hundigited
      have hexponent := Exponent.scan?_of_text (h.exponent e rfl) z
      simp only [text, scan?, Option.elim_some, List.append_assoc, List.cons_append, htake,
        hdrop, scanFraction?, hfraction, List.drop_succ_cons, List.drop_left, hexponent]
      rw [if_neg (by simpa using h.nonempty)]
      exact ⟨_, rfl, by simp [Exponent.text]⟩

/-- Where a text begins with a literal, the scanner takes one, and no literal at its
    start goes beyond it. -/
theorem scan?_longest {cs w : List Char} (hw : IsNumber w) (hcs : w <+: cs) :
    ∃ n, scan? cs = some n ∧ w <+: n.text := by
  obtain ⟨n, hn, rfl⟩ := isNumber_iff.1 hw
  obtain ⟨z, rfl⟩ := hcs
  exact text_longest hn z

theorem isNumber_of_scan? {cs : List Char} {n : Numeral} (h : scan? cs = some n) :
    IsNumber n.text :=
  isNumber_iff.2 ⟨n, wellFormed_of_scan? h, rfl⟩

end Numeral

end Calculator
