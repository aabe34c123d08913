import Calculator.Binary64.Nearest

/-! # Number literals

    A literal is a run of digits that may hold one decimal point, followed by
    an optional exponent: `12`, `12.`, `12.5`, `.5`, `1e10`, `1.5E-3`. There is
    a digit before the point or after it, and the exponent is only there with
    its digits. Digits are the ASCII digits alone.

    `Numeral.scan?` reads the longest literal at the start of a text,
    `Numeral.text` writes one, and `Numeral.value` is the double nearest to the
    number that it denotes.
-/

namespace Calculator

/-- The exponent part of a literal. -/
structure Exponent where
  /-- The letter that opens it, `e` or `E`. -/
  letter : Char
  /-- The sign, if one is written. -/
  sign : Option Char
  digits : List Char
deriving DecidableEq, Repr

/-- A number literal, as written. -/
structure Numeral where
  /-- The digits before the decimal point. -/
  whole : List Char
  /-- The digits after the decimal point, if there is a point. -/
  fraction : Option (List Char)
  exponent : Option Exponent
deriving DecidableEq, Repr

namespace Exponent

/-- The characters of the exponent. -/
def text (e : Exponent) : List Char := e.letter :: (e.sign.toList ++ e.digits)

/-- The power of ten that the exponent stands for. -/
def value (e : Exponent) : Int :=
  let magnitude : Int := (Nat.ofDigitChars 10 e.digits 0 : Nat)
  if e.sign = some '-' then -magnitude else magnitude

/-- The optional sign at the start of a text, and what follows it. -/
def splitSign : List Char → Option Char × List Char
  | c :: rest => if c = '+' || c = '-' then (some c, rest) else (none, c :: rest)
  | [] => (none, [])

/-- The exponent at the start of a text; there is none without digits. -/
def scan? : List Char → Option Exponent
  | c :: rest =>
    if c = 'e' || c = 'E' then
      let (sign, rest) := splitSign rest
      match rest.takeWhile Char.isDigit with
      | [] => none
      | digits => some ⟨c, sign, digits⟩
    else none
  | [] => none

end Exponent

namespace Numeral

/-- The characters of the literal. -/
def text (n : Numeral) : List Char :=
  n.whole ++ (n.fraction.elim [] ('.' :: ·)) ++ (n.exponent.elim [] Exponent.text)

/-- The point and the digits after it at the start of a text. -/
def scanFraction? : List Char → Option (List Char)
  | '.' :: rest => some (rest.takeWhile Char.isDigit)
  | _ => none

/-- The longest literal at the start of a text. -/
def scan? (cs : List Char) : Option Numeral :=
  let whole := cs.takeWhile Char.isDigit
  let rest := cs.dropWhile Char.isDigit
  let fraction := scanFraction? rest
  if whole ++ fraction.getD [] = [] then none
  else some ⟨whole, fraction, Exponent.scan? (rest.drop (fraction.elim 0 (·.length + 1)))⟩

/-- All digits before the exponent, as one number. -/
def significand (n : Numeral) : Nat := Nat.ofDigitChars 10 (n.whole ++ n.fraction.getD []) 0

/-- The power of ten by which the significand is scaled. -/
def scale (n : Numeral) : Int :=
  n.exponent.elim 0 Exponent.value - ((n.fraction.getD []).length : Nat)

/-- The double nearest to the denoted number, `significand · 10 ^ scale`. -/
def value (n : Numeral) : Float := Binary64.ofDecimal n.significand n.scale

end Numeral

/-! ## A literal is part of the text -/

theorem Exponent.splitSign_eq (cs : List Char) :
    (splitSign cs).1.toList ++ (splitSign cs).2 = cs := by
  unfold splitSign
  split
  · split <;> simp
  · rfl

/-- An exponent is read off the start of the text. -/
theorem Exponent.text_prefix {cs : List Char} {e : Exponent} (h : scan? cs = some e) :
    e.text <+: cs := by
  cases cs with
  | nil => simp [scan?] at h
  | cons c rest =>
    simp only [scan?] at h
    split at h
    · generalize hs : splitSign rest = p at h
      obtain ⟨sign, after⟩ := p
      have hrest := splitSign_eq rest
      rw [hs] at hrest
      split at h
      · simp at h
      · next digits hd =>
        simp only [Option.some.injEq] at h
        subst h
        simp only [text, ← hrest, List.cons_prefix_cons, true_and]
        exact (List.prefix_append_right_inj _).2 (List.takeWhile_prefix _)
    · simp at h

namespace Numeral

/-- The point and its digits are read off the start of the text. -/
theorem scanFraction?_eq {cs digits : List Char} (h : scanFraction? cs = some digits) :
    '.' :: digits ++ cs.drop (digits.length + 1) = cs := by
  unfold scanFraction? at h
  split at h
  · next rest =>
    simp only [Option.some.injEq] at h
    subst h
    simp only [List.cons_append, List.drop_succ_cons]
    congr 1
    exact List.prefix_iff_eq_append.1 (List.takeWhile_prefix _)
  · simp at h

/-- Point, digits and exponent are read off the text after the whole part. -/
theorem text_scanFraction_prefix (whole rest : List Char) :
    text ⟨whole, scanFraction? rest,
      Exponent.scan? (rest.drop ((scanFraction? rest).elim 0 (·.length + 1)))⟩ <+:
      whole ++ rest := by
  simp only [text, List.append_assoc]
  refine (List.prefix_append_right_inj _).2 ?_
  cases hf : scanFraction? rest with
  | none =>
    cases he : Exponent.scan? rest with
    | none => simp [he]
    | some e => simpa [he] using Exponent.text_prefix he
  | some digits =>
    have hrest := scanFraction?_eq hf
    dsimp only [Option.elim_some]
    generalize rest.drop (digits.length + 1) = after at *
    rw [← hrest]
    refine (List.prefix_append_right_inj _).2 ?_
    cases he : Exponent.scan? after with
    | none => simp
    | some e => simpa using Exponent.text_prefix he

/-- A literal is read off the start of the text. -/
theorem text_prefix {cs : List Char} {n : Numeral} (h : scan? cs = some n) :
    n.text <+: cs := by
  simp only [scan?] at h
  split at h
  · simp at h
  · simp only [Option.some.injEq] at h
    subst h
    have hp := text_scanFraction_prefix (cs.takeWhile Char.isDigit) (cs.dropWhile Char.isDigit)
    rwa [List.takeWhile_append_dropWhile] at hp

/-- A literal is not empty. -/
theorem text_ne_nil {cs : List Char} {n : Numeral} (h : scan? cs = some n) : n.text ≠ [] := by
  simp only [scan?] at h
  split at h
  · simp at h
  · next hne =>
    simp only [Option.some.injEq] at h
    subst h
    intro ht
    simp only [text, List.append_eq_nil_iff] at ht
    apply hne
    cases hf : scanFraction? (cs.dropWhile Char.isDigit) with
    | none => simpa [hf] using ht.1.1
    | some digits => simp [hf] at ht

end Numeral

end Calculator
