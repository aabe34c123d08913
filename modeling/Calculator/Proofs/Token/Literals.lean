import Calculator.Dialect
import Calculator.Proofs.Binary64.Closest
import Calculator.Proofs.Decimal.Denotation
import Calculator.Proofs.Token.Lexemes

/-! # Values of number literals

    The lexeme of a scanned number denotes one rational number (`NumberDenotes`),
    and the value of the token is the double nearest to it, however many digits the
    literal has and however great its exponent is (`Token.literal_denotes_nearest`).
    All of the denoted number is rounded, at once: the double nearest to a decimal
    is the one nearest to its exact number of units (`Binary64.isNearest_ofDecimal`).
-/

namespace Calculator

namespace Binary64

theorem isNearest_ofDecimal (m : Nat) (e : Int) :
    IsNearest ((m : ℚ) * 10 ^ e) (ofDecimal m e) := by
  have hnearest := isNearest_nearest (m * Nat.pow 10 e.toNat * unitsPerOne)
    (ten_pow_pos (-e).toNat)
  have hone : (2 : ℚ) ^ 1074 ≠ 0 := by positivity
  rw [Nat.cast_mul, Nat.cast_mul, cast_unitsPerOne] at hnearest
  rw [ofDecimal_eq, ten_zpow_eq, ← mul_div_assoc]
  rwa [div_right_comm, mul_div_cancel_right₀ _ hone] at hnearest

/-- A number is rounded to a double or to infinity. -/
theorem IsNearest.isNaN_eq_false {q : ℚ} {x : Float} (h : IsNearest q x) : x.isNaN = false := by
  obtain hlt | hge := lt_or_ge q (2 ^ 1024 - 2 ^ 970)
  · have hfinite := h.finite hlt
    rw [isNaN_eq]
    unfold toRat? at hfinite
    split at hfinite
    · next sign units hform => rw [hform]; rfl
    · cases hfinite
  · rw [h.infinite_iff.2 hge]
    decide +kernel

end Binary64

namespace Token

open Text (Cursor isBlank)

variable {keywords : Keywords} {cs : List Char}

/-- A number that is no word of the language is a literal. -/
theorem exists_numeral_of_lex {lexeme : List Char} {value : Float}
    (h : lex keywords cs = .token .number lexeme value)
    (hword : keywords.lookup (String.ofList lexeme) ≠ some .number) :
    ∃ n : Numeral, n.WellFormed ∧ n.text = lexeme ∧ n.value = value := by
  -- the kind of the token is kept apart from the one that its form says
  generalize hkind : Kind.number = kind at h
  cases lexes_of_lex h with
  | ended => cases hkind
  | symbol hx =>
    subst hkind
    unfold Kind.ofSymbol? at hx
    split at hx <;> cases hx
  | number hn => exact ⟨_, Numeral.wellFormed_of_scan? hn, rfl, rfl⟩
  | word =>
    refine absurd ?_ hword
    unfold wordKind at hkind
    cases hlookup : keywords.lookup (String.ofList lexeme) with
    | none => rw [hlookup] at hkind; cases hkind
    | some kind => rw [hlookup] at hkind; rw [hkind]; rfl

/-- The value of a scanned number is the double nearest to the number that its lexeme
    denotes, in whatever text it stands; it has no negative sign and is a number. Only
    a word that the language itself calls a number is no literal. -/
theorem literal_denotes_nearest (keywords : Keywords) (c : Cursor) (t : Token)
    (hscan : (scan keywords c).1 = .ok t) (hkind : t.kind = .number)
    (hword : keywords.lookup t.lexeme ≠ some .number) :
    ∃ q, (∀ q', NumberDenotes t.lexeme.toList q' ↔ q' = q) ∧
      (∀ x, Binary64.IsNearest q x ↔ x = t.value) ∧ t.value.isNaN = false := by
  rw [scan_eq] at hscan
  cases hlex : lex keywords (c.rest.dropWhile isBlank) with
  | bad cause => rw [hlex] at hscan; cases hscan
  | token kind lexeme value =>
    rw [hlex] at hscan
    cases hscan
    dsimp only at hkind hword ⊢
    subst hkind
    obtain ⟨n, hn, rfl, rfl⟩ := exists_numeral_of_lex hlex hword
    have hdenotes : NumberDenotes n.text n.denoted := numberDenotes_iff.2 ⟨n, hn, rfl, rfl⟩
    have hnearest : Binary64.IsNearest n.denoted n.value :=
      Binary64.isNearest_ofDecimal n.significand n.scale
    refine ⟨n.denoted, fun q' => ?_, fun x => ⟨fun h => h.unique hnearest, ?_⟩,
      hnearest.isNaN_eq_false⟩
    · rw [String.toList_ofList]
      constructor
      · exact fun h => h.unique hdenotes
      · rintro rfl
        exact hdenotes
    · rintro rfl
      exact hnearest

/-- `9007199254740993` lies in the middle between two doubles. -/
theorem literal_denotes_nearest_halfway :
    let t : Token := ⟨.number, ".9007199254740993e16", Binary64.ofNat 9007199254740992, 0⟩
    ((scan Dialect.full.keywords (.ofText ".9007199254740993e16+1".toList)).1 = .ok t ∧
      t.kind = .number ∧ Dialect.full.keywords.lookup t.lexeme ≠ some .number) ∧
    ∃ q, (∀ q', NumberDenotes t.lexeme.toList q' ↔ q' = q) ∧
      (∀ x, Binary64.IsNearest q x ↔ x = t.value) ∧ t.value.isNaN = false := by
  intro t
  have hscan : (scan Dialect.full.keywords (.ofText ".9007199254740993e16+1".toList)).1 =
      .ok t := by decide +kernel
  have hword : Dialect.full.keywords.lookup t.lexeme ≠ some .number := by decide +kernel
  exact ⟨⟨hscan, rfl, hword⟩, literal_denotes_nearest _ _ t hscan rfl hword⟩

end Token

end Calculator
