import Calculator.CrossCheck.Evaluation
import Calculator.Proofs.CrossCheck.Literals

/-! # The bracketed notation

    The second notation of samples, read as a text of its own:

        formula ::= number | "(-" formula ")" | "(" formula ")" | "abs(" formula ")"
                  | "(" formula " " ("+" | "-" | "*" | "/") " " formula ")"
                  | ("math.fmod(" | "math.pow(") formula ", " formula ")"

    Every operation has brackets of its own, so a formula needs no rules of
    precedence. The text of a sample in this notation is a formula, with the
    value of the sample (`Sample.parse_reference`, `Sample.value_formula`).
-/

namespace Calculator.CrossCheck

/-! ## Formulas -/

/-- An operation with two operands. -/
inductive Operation where
  | add
  | sub
  | mul
  | div
  | modulo
  | power
deriving DecidableEq, Repr

/-- The strict value of an operation. -/
def Operation.apply : Operation → Float → Float → Except Breakdown Float
  | add, a, b => .ok (a + b)
  | sub, a, b => .ok (a - b)
  | mul, a, b => .ok (a * b)
  | div, a, b => Strict.divide a b
  | modulo, a, b => Strict.modulo a b
  | power, a, b => Strict.power a b

/-- The operation takes the remainder of a NaN by zero, which is strictly a NaN. -/
def Operation.IsModuloOfNaN (op : Operation) (a b : Float) : Prop :=
  op = .modulo ∧ a.isNaN ∧ (b == 0)

/-- The operation that is written with a symbol between its operands. -/
def Operation.ofSymbol? : Char → Option Operation
  | '+' => some add
  | '-' => some sub
  | '*' => some mul
  | '/' => some div
  | _ => none

/-- A text in the bracketed notation, taken apart. -/
inductive Formula where
  | number (n : Numeral)
  | negated (x : Formula)
  | enclosed (x : Formula)
  | absolute (x : Formula)
  | operation (op : Operation) (x y : Formula)

namespace Formula

/-- The value of a formula; operands are evaluated from left to right, and the
    first error stands. -/
def value : Formula → Except Breakdown Float
  | number n => .ok n.value
  | negated x => do return -(← x.value)
  | enclosed x => x.value
  | absolute x => do return (← x.value).abs
  | operation op x y => do
    let a ← x.value
    let b ← y.value
    op.apply a b

/-- Somewhere in the formula the remainder of a NaN by zero is taken. -/
def ModuloOfNaN : Formula → Prop
  | number _ => False
  | negated x | enclosed x | absolute x => x.ModuloOfNaN
  | operation op x y =>
    x.ModuloOfNaN ∨ y.ModuloOfNaN ∨
      ∃ a b, x.value = .ok a ∧ y.value = .ok b ∧ op.IsModuloOfNaN a b

/-! ## Reading formulas -/

/-- What is behind a word at the start of a text. -/
def behind (word : String) (text : List Char) : Option (List Char) :=
  if word.toList <+: text then some (text.drop word.toList.length) else none

/-- The operation that is called at the start of a text, and its arguments. -/
def callee (text : List Char) : Option (Operation × List Char) :=
  match behind "math.fmod(" text with
  | some rest => some (.modulo, rest)
  | none => (behind "math.pow(" text).map fun rest => (.power, rest)

/-- The formula at the start of a text and what is behind it, for formulas with at
    most `limit` of them inside each other. -/
def read : (limit : Nat) → List Char → Option (Formula × List Char)
  | 0, _ => none
  | limit + 1, text =>
    match Numeral.scan? text with
    | some n => some (number n, text.drop n.text.length)
    | none =>
      match text with
      | '(' :: '-' :: rest => do
        let (x, rest) ← read limit rest
        let rest ← behind ")" rest
        some (negated x, rest)
      | '(' :: rest => do
        let (x, rest) ← read limit rest
        match rest with
        | ' ' :: symbol :: ' ' :: rest => do
          let op ← Operation.ofSymbol? symbol
          let (y, rest) ← read limit rest
          let rest ← behind ")" rest
          some (operation op x y, rest)
        | rest => do
          let rest ← behind ")" rest
          some (enclosed x, rest)
      | 'a' :: _ => do
        let rest ← behind "abs(" text
        let (x, rest) ← read limit rest
        let rest ← behind ")" rest
        some (absolute x, rest)
      | 'm' :: _ => do
        let (op, rest) ← callee text
        let (x, rest) ← read limit rest
        let rest ← behind ", " rest
        let (y, rest) ← read limit rest
        let rest ← behind ")" rest
        some (operation op x y, rest)
      | _ => none

/-- The formula that a text is. -/
def parse (text : String) : Option Formula :=
  match read text.toList.length text.toList with
  | some (x, []) => some x
  | _ => none

/-! ## What is read -/

section reading
variable {limit : Nat} {t u z after : List Char} {c : Char} {x y : Formula}

theorem behind_append (word : String) (z : List Char) :
    behind word (word.toList ++ z) = some z := by
  rw [behind, if_pos (List.prefix_append _ _), List.drop_left]

theorem behind_close (z : List Char) : behind ")" (')' :: z) = some z := behind_append ")" z

theorem read_number {n : Numeral} (hn : n.WellFormed) (hz : Numeral.Delimits z) :
    read (limit + 1) (n.text ++ z) = some (number n, z) := by
  simp [read, Numeral.scan?_text_append hn hz]

theorem read_negated (h : read limit (t ++ ')' :: z) = some (x, ')' :: z)) :
    read (limit + 1) ('(' :: '-' :: (t ++ ')' :: z)) = some (negated x, z) := by
  have hscan := Numeral.scan?_eq_none '(' ('-' :: (t ++ ')' :: z)) (by decide) (by decide)
  simp [read, hscan, h, behind_close]

theorem read_enclosed (ht : t = c :: after) (hc : c ≠ '-')
    (h : read limit (t ++ ')' :: z) = some (x, ')' :: z)) :
    read (limit + 1) ('(' :: (t ++ ')' :: z)) = some (enclosed x, z) := by
  have hscan := Numeral.scan?_eq_none '(' (t ++ ')' :: z) (by decide) (by decide)
  subst ht
  simp only [List.cons_append] at h hscan ⊢
  simp [read, hscan, hc, h, behind_close]

theorem read_absolute (h : read limit (t ++ ')' :: z) = some (x, ')' :: z)) :
    read (limit + 1) ('a' :: ("bs(".toList ++ (t ++ ')' :: z))) = some (absolute x, z) := by
  have hword : behind "abs(" ('a' :: ("bs(".toList ++ (t ++ ')' :: z))) = some (t ++ ')' :: z) :=
    behind_append "abs(" _
  have hscan := Numeral.scan?_eq_none 'a' ("bs(".toList ++ (t ++ ')' :: z)) (by decide) (by decide)
  generalize "bs(".toList ++ (t ++ ')' :: z) = rest at *
  simp [read, hscan, hword, h, behind_close]

theorem read_symbol {op : Operation} {symbol : Char} (hop : Operation.ofSymbol? symbol = some op)
    (ht : t = c :: after) (hc : c ≠ '-')
    (hx : read limit (t ++ ' ' :: symbol :: ' ' :: (u ++ ')' :: z)) =
      some (x, ' ' :: symbol :: ' ' :: (u ++ ')' :: z)))
    (hy : read limit (u ++ ')' :: z) = some (y, ')' :: z)) :
    read (limit + 1) ('(' :: (t ++ ' ' :: symbol :: ' ' :: (u ++ ')' :: z))) =
      some (operation op x y, z) := by
  have hscan := Numeral.scan?_eq_none '(' (t ++ ' ' :: symbol :: ' ' :: (u ++ ')' :: z))
    (by decide) (by decide)
  subst ht
  simp only [List.cons_append] at hx hscan ⊢
  simp [read, hscan, hc, hop, hx, hy, behind_close]

/-- A call with two arguments. -/
theorem read_call {op : Operation}
    (hcallee : callee ('m' :: after) = some (op, t ++ ',' :: ' ' :: (u ++ ')' :: z)))
    (hx : read limit (t ++ ',' :: ' ' :: (u ++ ')' :: z)) =
      some (x, ',' :: ' ' :: (u ++ ')' :: z)))
    (hy : read limit (u ++ ')' :: z) = some (y, ')' :: z)) :
    read (limit + 1) ('m' :: after) = some (operation op x y, z) := by
  have hcomma : behind ", " (',' :: ' ' :: (u ++ ')' :: z)) = some (u ++ ')' :: z) :=
    behind_append ", " _
  have hscan := Numeral.scan?_eq_none 'm' after (by decide) (by decide)
  simp [read, hscan, hcallee, hx, hy, hcomma, behind_close]

theorem callee_modulo (z : List Char) :
    callee ('m' :: ("ath.fmod(".toList ++ z)) = some (.modulo, z) := by
  have hcallee := behind_append "math.fmod(" z
  show callee ("math.fmod(".toList ++ z) = _
  rw [callee, hcallee]

theorem callee_power (z : List Char) :
    callee ('m' :: ("ath.pow(".toList ++ z)) = some (.power, z) := by
  have hother : behind "math.fmod(" ("math.pow(".toList ++ z) = none := by simp [behind]
  have hcallee := behind_append "math.pow(" z
  show callee ("math.pow(".toList ++ z) = _
  rw [callee, hother, hcallee]
  rfl

end reading

end Formula

/-! ## Samples as formulas -/

/-- The operation of an operator of a sum. -/
def SumOp.operation : SumOp → Operation
  | add => .add
  | sub => .sub

/-- The operation of an operator of a product. -/
def ProductOp.operation : ProductOp → Operation
  | mul => .mul
  | div => .div
  | mod => .modulo

namespace Sample

/-- The formula of a sample. -/
def formula : {tier : Tier} → Sample tier → Formula
  | _, literal l => .number l.referenceNumeral
  | _, negated x => .negated x.formula
  | _, enclosed .bars x => .absolute x.formula
  | _, enclosed _ x => .enclosed x.formula
  | _, factor x => x.formula
  | _, raised x y => .operation .power x.formula y.formula
  | _, power x => x.formula
  | _, product x op y => .operation op.operation x.formula y.formula
  | _, term x => x.formula
  | _, sum x op y => .operation op.operation x.formula y.formula

/-- The value of a sample in the bracketed notation is that of its formula. -/
theorem value_formula {tier : Tier} (x : Sample tier) : x.formula.value = x.value := by
  induction x with
  | literal l => rw [formula, Formula.value, value, l.value_referenceNumeral, l.value_eq]
  | negated x ih => rw [formula, Formula.value, ih, value]
  | enclosed pair x ih =>
    cases pair with
    | bars => simp [formula, Formula.value, ih, value]
    | parens | braces | brackets => simp [formula, Formula.value, ih, value]
  | factor x ih | power x ih | term x ih => exact ih
  | raised x y ihx ihy => rw [formula, Formula.value, ihx, ihy, value]; rfl
  | product x op y ihx ihy =>
    rw [formula, Formula.value, ihx, ihy, value]
    cases op <;> rfl
  | sum x op y ihx ihy =>
    rw [formula, Formula.value, ihx, ihy, value]
    cases op <;> rfl

/-! ### The text of a sample -/

theorem toList_negated (x : Sample .factor) :
    (negated x).reference.toList = '(' :: '-' :: (x.reference.toList ++ [')']) := by
  show ("(-" ++ x.reference ++ ")").toList = _
  simp

theorem toList_bars (x : Sample .expression) :
    (enclosed .bars x).reference.toList =
      'a' :: ("bs(".toList ++ (x.reference.toList ++ [')'])) := by
  show ("abs(" ++ x.reference ++ ")").toList = _
  simp

theorem toList_enclosed {pair : Enclosure} (x : Sample .expression) (h : pair ≠ .bars) :
    (enclosed pair x).reference.toList = '(' :: (x.reference.toList ++ [')']) := by
  cases pair with
  | bars => exact absurd rfl h
  | parens | braces | brackets =>
    show ("(" ++ x.reference ++ ")").toList = _
    simp

theorem toList_sum (x : Sample .expression) (op : SumOp) (y : Sample .term) :
    ∃ symbol, Operation.ofSymbol? symbol = some op.operation ∧
      (sum x op y).reference.toList =
        '(' :: (x.reference.toList ++ ' ' :: symbol :: ' ' :: (y.reference.toList ++ [')'])) := by
  have htext : (sum x op y).reference =
      "(" ++ x.reference ++ " " ++ op.symbol ++ " " ++ y.reference ++ ")" := rfl
  cases op
  · exact ⟨'+', rfl, by simp [htext, SumOp.symbol]⟩
  · exact ⟨'-', rfl, by simp [htext, SumOp.symbol]⟩

theorem toList_raised (x y : Sample .factor) :
    (raised x y).reference.toList = 'm' :: ("ath.pow(".toList ++
      (x.reference.toList ++ ',' :: ' ' :: (y.reference.toList ++ [')']))) := by
  show (call "math.pow" x.reference y.reference).toList = _
  simp [call]

theorem toList_modulo (x : Sample .term) (y : Sample .power) :
    (product x .mod y).reference.toList = 'm' :: ("ath.fmod(".toList ++
      (x.reference.toList ++ ',' :: ' ' :: (y.reference.toList ++ [')']))) := by
  show (call "math.fmod" x.reference y.reference).toList = _
  simp [call]

theorem toList_product (x : Sample .term) {op : ProductOp} (y : Sample .power) (h : op ≠ .mod) :
    ∃ symbol, Operation.ofSymbol? symbol = some op.operation ∧
      (product x op y).reference.toList =
        '(' :: (x.reference.toList ++ ' ' :: symbol :: ' ' :: (y.reference.toList ++ [')'])) := by
  cases op with
  | mod => exact absurd rfl h
  | mul =>
    have htext : (product x .mul y).reference =
        "(" ++ x.reference ++ " " ++ "*" ++ " " ++ y.reference ++ ")" := rfl
    exact ⟨'*', rfl, by simp [htext]⟩
  | div =>
    have htext : (product x .div y).reference =
        "(" ++ x.reference ++ " " ++ "/" ++ " " ++ y.reference ++ ")" := rfl
    exact ⟨'/', rfl, by simp [htext]⟩

/-- No sample begins with a sign. -/
theorem head_reference {tier : Tier} (x : Sample tier) :
    ∃ c after, x.reference.toList = c :: after ∧ c ≠ '-' := by
  induction x with
  | literal l =>
    obtain ⟨c, after, htext, hc⟩ := l.wellFormed_referenceNumeral.head
    rw [l.text_referenceNumeral] at htext
    refine ⟨c, after, htext, ?_⟩
    rintro rfl
    exact absurd hc (by decide)
  | negated x => exact ⟨_, _, x.toList_negated, by decide⟩
  | enclosed pair x =>
    by_cases hpair : pair = .bars
    · subst hpair
      exact ⟨_, _, x.toList_bars, by decide⟩
    · exact ⟨_, _, x.toList_enclosed hpair, by decide⟩
  | factor x ih | power x ih | term x ih => exact ih
  | raised x y => exact ⟨_, _, toList_raised x y, by decide⟩
  | product x op y =>
    by_cases hop : op = .mod
    · subst hop
      exact ⟨_, _, toList_modulo x y, by decide⟩
    · obtain ⟨symbol, -, htext⟩ := toList_product x y hop
      exact ⟨_, _, htext, by decide⟩
  | sum x op y =>
    obtain ⟨symbol, -, htext⟩ := toList_sum x op y
    exact ⟨_, _, htext, by decide⟩

/-- Behind its first character a text is shorter. -/
theorem exists_succ_of_length_le {c : Char} {after : List Char} {limit : Nat}
    (h : (c :: after).length ≤ limit) : ∃ k, limit = k + 1 ∧ after.length ≤ k := by
  rw [List.length_cons] at h
  exact ⟨limit - 1, by omega, by omega⟩

/-- The text of a sample is read as its formula, whatever stands behind it. -/
def IsRead {tier : Tier} (x : Sample tier) : Prop :=
  ∀ (limit : Nat) (z : List Char), x.reference.toList.length ≤ limit → Numeral.Delimits z →
    Formula.read limit (x.reference.toList ++ z) = some (x.formula, z)

theorem delimits_close (z : List Char) : Numeral.Delimits (')' :: z) :=
  Numeral.delimits_cons (by decide)

section operands
variable {tier tier₁ tier₂ : Tier} {w : Sample tier} {x : Sample tier₁} {y : Sample tier₂}
  {op : Operation}

/-- Two samples in parentheses with a symbol between them. -/
theorem isRead_infix (hx : x.IsRead) (hy : y.IsRead) {symbol : Char}
    (hsymbol : Operation.ofSymbol? symbol = some op)
    (htext : w.reference.toList =
      '(' :: (x.reference.toList ++ ' ' :: symbol :: ' ' :: (y.reference.toList ++ [')'])))
    (hformula : w.formula = .operation op x.formula y.formula) : w.IsRead := by
  intro limit z hlimit hz
  obtain ⟨c, after, hhead, hc⟩ := x.head_reference
  rw [htext] at hlimit ⊢
  obtain ⟨k, rfl, hk⟩ := exists_succ_of_length_le hlimit
  simp only [List.length_cons, List.length_append] at hk
  have hlength : x.reference.toList.length ≤ k ∧ y.reference.toList.length ≤ k := by omega
  have hread := Formula.read_symbol hsymbol hhead hc
    (hx k _ hlength.1 (Numeral.delimits_cons (by decide)))
    (hy k _ hlength.2 (delimits_close z))
  simpa [hformula] using hread

/-- Two samples as the arguments of a function. -/
theorem isRead_call (hx : x.IsRead) (hy : y.IsRead) {front : List Char}
    (hcallee : ∀ z, Formula.callee ('m' :: (front ++ z)) = some (op, z))
    (htext : w.reference.toList =
      'm' :: (front ++ (x.reference.toList ++ ',' :: ' ' :: (y.reference.toList ++ [')']))))
    (hformula : w.formula = .operation op x.formula y.formula) : w.IsRead := by
  intro limit z hlimit hz
  rw [htext] at hlimit ⊢
  obtain ⟨k, rfl, hk⟩ := exists_succ_of_length_le hlimit
  simp only [List.length_cons, List.length_append] at hk
  have hlength : x.reference.toList.length ≤ k ∧ y.reference.toList.length ≤ k := by omega
  have hread := Formula.read_call (hcallee _)
    (hx k _ hlength.1 (Numeral.delimits_cons (by decide)))
    (hy k _ hlength.2 (delimits_close z))
  simpa [hformula] using hread

end operands

/-- The text of a sample is read as its formula. -/
theorem isRead {tier : Tier} (x : Sample tier) : x.IsRead := by
  -- The text of a part is shorter, so a limit that is one less does for it.
  induction x with
  | literal l =>
    intro limit z hlimit hz
    obtain ⟨c, after, hhead, -⟩ := (literal l).head_reference
    rw [hhead] at hlimit
    obtain ⟨k, rfl, -⟩ := exists_succ_of_length_le hlimit
    rw [reference, ← l.text_referenceNumeral]
    exact Formula.read_number l.wellFormed_referenceNumeral hz
  | negated x ih =>
    intro limit z hlimit hz
    rw [toList_negated] at hlimit ⊢
    obtain ⟨k, rfl, hk⟩ := exists_succ_of_length_le hlimit
    simp only [List.length_cons, List.length_append] at hk
    simpa [formula] using Formula.read_negated (ih _ _ (by omega) (delimits_close z))
  | enclosed pair x ih =>
    intro limit z hlimit hz
    by_cases hpair : pair = .bars
    · subst hpair
      rw [toList_bars] at hlimit ⊢
      obtain ⟨k, rfl, hk⟩ := exists_succ_of_length_le hlimit
      simp only [List.length_cons, List.length_append] at hk
      simpa [formula] using Formula.read_absolute (ih _ _ (by omega) (delimits_close z))
    · have hformula : (enclosed pair x).formula = .enclosed x.formula := by
        cases pair <;> first | rfl | exact absurd rfl hpair
      obtain ⟨c, after, hhead, hc⟩ := x.head_reference
      rw [toList_enclosed x hpair] at hlimit ⊢
      obtain ⟨k, rfl, hk⟩ := exists_succ_of_length_le hlimit
      simp only [List.length_append] at hk
      rw [hformula]
      simpa using Formula.read_enclosed hhead hc (ih _ _ (by omega) (delimits_close z))
  | factor x ih | power x ih | term x ih => exact ih
  | raised x y ihx ihy => exact isRead_call ihx ihy Formula.callee_power (toList_raised x y) rfl
  | product x op y ihx ihy =>
    by_cases hop : op = .mod
    · subst hop
      exact isRead_call ihx ihy Formula.callee_modulo (toList_modulo x y) rfl
    · obtain ⟨symbol, hsymbol, htext⟩ := toList_product x y hop
      exact isRead_infix ihx ihy hsymbol htext rfl
  | sum x op y ihx ihy =>
    obtain ⟨symbol, hsymbol, htext⟩ := toList_sum x op y
    exact isRead_infix ihx ihy hsymbol htext rfl

theorem parse_reference {tier : Tier} (x : Sample tier) :
    Formula.parse x.reference = some x.formula := by
  have hread := x.isRead _ [] (Nat.le_refl _) Numeral.delimits_nil
  rw [List.append_nil] at hread
  rw [Formula.parse, hread]

end Sample

end Calculator.CrossCheck
