import Calculator.Decimal.Numeral

/-! # Texts that are literals

    A literal is found again in front of text that does not continue it
    (`scan?_text_append`). In particular a text that the scanner takes for a
    number literal is a literal as a whole (`scan?_text`), so the conversion of a
    literal from its text never fails (`ofText?_text`).
-/

namespace Calculator

/-! ## Runs of digits -/

/-- No digit stands at the start of the text. -/
def Undigited (cs : List Char) : Prop := ∀ c after, cs = c :: after → c.isDigit = false

section runs
variable {run rest : List Char}

/-- A run of digits ends where no digit continues it. -/
theorem takeWhile_run (hrun : ∀ c ∈ run, c.isDigit) (hrest : Undigited rest) :
    (run ++ rest).takeWhile Char.isDigit = run ∧ (run ++ rest).dropWhile Char.isDigit = rest := by
  have hnone : rest.takeWhile Char.isDigit = [] ∧ rest.dropWhile Char.isDigit = rest := by
    cases rest with
    | nil => exact ⟨rfl, rfl⟩
    | cons c after => simp [hrest c after rfl]
  rw [List.takeWhile_append_of_pos hrun, List.dropWhile_append_of_pos hrun, hnone.1, hnone.2]
  exact ⟨List.append_nil _, rfl⟩

theorem isDigit_of_mem_takeWhile (cs : List Char) : ∀ c ∈ cs.takeWhile Char.isDigit, c.isDigit :=
  List.all_eq_true.1 List.all_takeWhile

end runs

/-! ## Exponents -/

/-- An exponent with an `e`, an optional sign and at least one digit. -/
structure Exponent.WellFormed (e : Exponent) : Prop where
  letter : e.letter = 'e' ∨ e.letter = 'E'
  sign : ∀ c, e.sign = some c → c = '+' ∨ c = '-'
  nonempty : e.digits ≠ []
  digits : ∀ c ∈ e.digits, c.isDigit

namespace Exponent

theorem splitSign_cons (c : Char) (rest : List Char) :
    splitSign (c :: rest) = if c = '+' ∨ c = '-' then (some c, rest) else (none, c :: rest) := by
  simp [splitSign]

theorem scan?_cons (c : Char) (rest : List Char) :
    scan? (c :: rest) =
      if c = 'e' ∨ c = 'E' then
        if (splitSign rest).2.takeWhile Char.isDigit = [] then none
        else some ⟨c, (splitSign rest).1, (splitSign rest).2.takeWhile Char.isDigit⟩
      else none := by
  simp only [scan?, Bool.or_eq_true, decide_eq_true_eq]
  congr 1
  split
  · next h => rw [if_pos h]
  · next h => rw [if_neg h]

theorem sign_of_splitSign (cs : List Char) :
    ∀ c, (splitSign cs).1 = some c → c = '+' ∨ c = '-' := by
  intro c h
  cases cs with
  | nil => cases h
  | cons d cs =>
    rw [splitSign_cons] at h
    split at h
    · next hd =>
      cases h
      exact hd
    · cases h

theorem wellFormed_of_scan? {cs : List Char} {e : Exponent} (h : scan? cs = some e) :
    e.WellFormed := by
  cases cs with
  | nil => cases h
  | cons c rest =>
    rw [scan?_cons] at h
    split at h
    · next hletter =>
      split at h
      · cases h
      · next hdigits =>
        cases h
        exact ⟨hletter, sign_of_splitSign rest, hdigits, isDigit_of_mem_takeWhile _⟩
    · cases h

/-- The sign is found in front of the digits. -/
theorem splitSign_text {e : Exponent} (h : e.WellFormed) (z : List Char) :
    splitSign (e.sign.toList ++ e.digits ++ z) = (e.sign, e.digits ++ z) := by
  cases hs : e.sign with
  | some c => obtain rfl | rfl := h.sign c hs <;> rfl
  | none =>
    cases hd : e.digits with
    | nil => exact absurd hd h.nonempty
    | cons c after =>
      -- the first digit is no sign
      have hdigit := h.digits c (by rw [hd]; exact List.mem_cons_self)
      show splitSign (c :: (after ++ z)) = (none, c :: (after ++ z))
      rw [splitSign_cons, if_neg]
      rintro (rfl | rfl) <;> exact absurd hdigit (by decide)

theorem scan?_text_append {e : Exponent} (h : e.WellFormed) {z : List Char}
    (hz : Undigited z) : scan? (e.text ++ z) = some e := by
  have hdigits := (takeWhile_run h.digits hz).1
  rw [text, List.cons_append, scan?_cons, if_pos h.letter, splitSign_text h]
  dsimp only
  rw [hdigits, if_neg h.nonempty]

end Exponent

/-! ## Literals -/

/-- A literal with a digit before the point or behind it. -/
structure Numeral.WellFormed (n : Numeral) : Prop where
  whole : ∀ c ∈ n.whole, c.isDigit
  fraction : ∀ digits, n.fraction = some digits → ∀ c ∈ digits, c.isDigit
  nonempty : n.whole ++ n.fraction.getD [] ≠ []
  exponent : ∀ e, n.exponent = some e → e.WellFormed

namespace Numeral

/-- The value of a text that is a literal from beginning to end. -/
def ofText? (text : List Char) : Option Float :=
  (scan? text).bind fun n => if n.text = text then some n.value else none

theorem wellFormed_of_scan? {cs : List Char} {n : Numeral} (h : scan? cs = some n) :
    n.WellFormed := by
  simp only [scan?] at h
  split at h
  · cases h
  · next hne =>
    cases h
    refine ⟨isDigit_of_mem_takeWhile _, ?_, hne, fun e => Exponent.wellFormed_of_scan?⟩
    intro digits hdigits
    dsimp only at hdigits
    unfold scanFraction? at hdigits
    split at hdigits
    · cases hdigits
      exact isDigit_of_mem_takeWhile _
    · cases hdigits

/-! ## Literals in front of other text -/

/-- Nothing at the start of the text could continue a literal. -/
def Delimits (z : List Char) : Prop :=
  ∀ c after, z = c :: after → c.isDigit = false ∧ c ≠ '.' ∧ c ≠ 'e' ∧ c ≠ 'E'

theorem delimits_nil : Delimits [] := nofun

theorem delimits_cons {c : Char} {after : List Char}
    (h : c.isDigit = false ∧ c ≠ '.' ∧ c ≠ 'e' ∧ c ≠ 'E') : Delimits (c :: after) := by
  rintro _ _ ⟨⟩
  exact h

/-- No literal begins with another character than a digit or a point. -/
theorem scan?_eq_none (c : Char) (z : List Char) (hdigit : c.isDigit = false) (hpoint : c ≠ '.') :
    scan? (c :: z) = none := by
  simp [scan?, scanFraction?, hdigit, hpoint]

section delimited
variable {n : Numeral} {z : List Char}

/-- A literal begins with a digit or a point. -/
theorem WellFormed.head (h : n.WellFormed) :
    ∃ c after, n.text = c :: after ∧ (c.isDigit ∨ c = '.') := by
  obtain ⟨whole, fraction, exponent⟩ := n
  cases whole with
  | cons d digits => exact ⟨d, _, rfl, .inl (h.whole d List.mem_cons_self)⟩
  | nil =>
    cases fraction with
    | none => exact absurd rfl h.nonempty
    | some digits => exact ⟨'.', _, rfl, .inr rfl⟩

/-- What stands behind the digits of a literal continues neither them nor the
    point. -/
theorem head_exponent (h : n.WellFormed) (hz : Delimits z) {c : Char} {after : List Char}
    (hc : n.exponent.elim [] Exponent.text ++ z = c :: after) : c.isDigit = false ∧ c ≠ '.' := by
  cases he : n.exponent with
  | none =>
    rw [he] at hc
    exact ⟨(hz c after hc).1, (hz c after hc).2.1⟩
  | some e =>
    rw [he] at hc
    obtain ⟨rfl, -⟩ := List.cons.inj hc
    obtain hletter | hletter := (h.exponent e he).letter <;> rw [hletter] <;> decide

theorem scan?_exponent (h : n.WellFormed) (hz : Delimits z) :
    Exponent.scan? (n.exponent.elim [] Exponent.text ++ z) = n.exponent := by
  cases he : n.exponent with
  | none =>
    cases z with
    | nil => rfl
    | cons c after =>
      obtain ⟨-, -, hletter, hletter'⟩ := hz c after rfl
      exact (Exponent.scan?_cons c after).trans (if_neg (not_or.2 ⟨hletter, hletter'⟩))
  | some e => exact Exponent.scan?_text_append (h.exponent e he) fun c after hc => (hz c after hc).1

/-- The point and its digits are found in front of an exponent. -/
theorem scanFraction?_text (h : n.WellFormed) (hz : Delimits z) :
    scanFraction? (n.fraction.elim [] ('.' :: ·) ++ (n.exponent.elim [] Exponent.text ++ z)) =
      n.fraction := by
  have hhead := @head_exponent n z h hz
  generalize n.exponent.elim [] Exponent.text ++ z = behind at *
  cases hf : n.fraction with
  | none =>
    show scanFraction? behind = none
    unfold scanFraction?
    split
    · next rest => exact absurd rfl (hhead rfl).2
    · rfl
  | some digits =>
    exact congrArg some
      (takeWhile_run (h.fraction digits hf) fun c after hc => (hhead hc).1).1

/-- A literal is found in front of text that does not continue it. -/
theorem scan?_text_append (h : n.WellFormed) (hz : Delimits z) :
    scan? (n.text ++ z) = some n := by
  have hfraction := scanFraction?_text h hz
  have hexponent := scan?_exponent h hz
  -- The digits in front end at the point, at the exponent or at the end of the literal.
  have hundigited : Undigited
      (n.fraction.elim [] ('.' :: ·) ++ (n.exponent.elim [] Exponent.text ++ z)) := by
    intro c after hc
    cases hf : n.fraction with
    | none =>
      rw [hf] at hc
      exact (head_exponent h hz hc).1
    | some digits =>
      rw [hf] at hc
      obtain ⟨rfl, -⟩ := List.cons.inj hc
      decide
  obtain ⟨hwhole, hrest⟩ := takeWhile_run h.whole hundigited
  -- The exponent is looked for behind the point and its digits.
  have hdrop : (n.fraction.elim [] ('.' :: ·) ++ (n.exponent.elim [] Exponent.text ++ z)).drop
      (n.fraction.elim 0 (·.length + 1)) = n.exponent.elim [] Exponent.text ++ z := by
    cases n.fraction <;> simp
  rw [text, List.append_assoc, List.append_assoc, scan?, hwhole, hrest, hfraction, hdrop,
    hexponent, if_neg h.nonempty]

theorem scan?_text (h : n.WellFormed) : scan? n.text = some n := by
  have hscan := scan?_text_append h delimits_nil
  rwa [List.append_nil] at hscan

end delimited

/-- The text of a literal that was scanned can be converted, to its value. -/
theorem ofText?_text {cs : List Char} {n : Numeral} (h : scan? cs = some n) :
    ofText? n.text = some n.value := by
  rw [ofText?, scan?_text (wellFormed_of_scan? h)]
  exact if_pos rfl

end Numeral

end Calculator
