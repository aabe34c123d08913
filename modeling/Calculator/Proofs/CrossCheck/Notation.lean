import Calculator.CrossCheck.Evaluation
import Calculator.Proofs.CrossCheck.Literals
import Calculator.Proofs.Session.Sentences
import Calculator.Proofs.Token.Ahead

/-! # Samples in the calculator's notation

    The code of a sample is scanned as the yield of a derivation tree of the same
    tier, whatever stands behind it (`Sample.reads_code`). So the calculator reads
    it as one complete expression, and finds the value of the sample
    (`calculated_code`).
-/

namespace Calculator

open CrossCheck Scanner
open Text (isBlank)

/-! ## The tokens of a sample -/

namespace CrossCheck

/-- A token that is no word and not the end opens a group in the full dialect if
    its kind is listed there. -/
theorem closing?_full {t : Token} (h : t.kind ≠ .quit) :
    Dialect.full.closing? t = Dialect.full.groupings.lookup t.kind := by
  simp [Dialect.closing?, Token.isEnd, h]

namespace Sample

/-- The value of a sample in the calculator, or its first error. -/
def own : {tier : Tier} → Sample tier → Except Cause Float
  | _, literal l => .ok l.value
  | _, negated x => do
    let v ← x.own
    pure (-v)
  | _, enclosed .bars x => do
    let v ← x.own
    pure v.abs
  | _, enclosed _ x => x.own
  | _, factor x => x.own
  | _, raised base exponent => do
    let v ← base.own
    let w ← exponent.own
    pure (Binary64.power v w)
  | _, power x => x.own
  | _, product x op y => do
    let v ← x.own
    let w ← y.own
    op.apply v w
  | _, term x => x.own
  | _, sum x op y => do
    let v ← x.own
    let w ← y.own
    pure (op.apply v w)

/-- From `s` on the tokens of a tree with the value of `x` come, and behind them
    the text `z`. -/
def Reads {tier : Tier} (x : Sample tier) (s : Scanner) (z : List Char) : Prop :=
  ∃ (T : Tree .full tier) (s' : Scanner), s.Gives T.yield s' ∧ s'.At z ∧
    ∀ b, T.value b = x.own

section reading
variable {s : Scanner} {z : List Char}

/-- A sample between two symbols. -/
theorem reads_between {x : Sample .expression}
    (hx : ∀ {s z}, s.At (x.code.toList ++ z) → Numeral.Delimits z → x.Reads s z)
    {c c' : Char} {k m : Token.Kind} (hc : Token.Kind.ofSymbol? c = some k)
    (hc' : Token.Kind.ofSymbol? c' = some m) (h : s.At (c :: (x.code.toList ++ c' :: z))) :
    ∃ (opening closing : Token) (T : Tree .full .expression) (s' : Scanner),
      s.Gives (opening :: (T.yield ++ [closing])) s' ∧ opening.kind = k ∧ closing.kind = m ∧
        s'.At z ∧ ∀ b, T.value b = x.own := by
  obtain ⟨opening, s₁, hopening, hk, h⟩ := h.symbol hc
  obtain ⟨T, s₂, hT, h, hvalue⟩ := hx h ((delimits_of_symbol hc').2 z)
  obtain ⟨closing, s', hclosing, hk', h⟩ := h.symbol hc'
  exact ⟨opening, closing, T, s',
    ⟨s₁, hopening, gives_append.2 ⟨s₂, hT, gives_singleton.2 hclosing⟩⟩, hk, hk', h, hvalue⟩

/-- A sample between two brackets that group. -/
theorem reads_group {x : Sample .expression}
    (hx : ∀ {s z}, s.At (x.code.toList ++ z) → Numeral.Delimits z → x.Reads s z)
    {c c' : Char} {k m : Token.Kind} (hc : Token.Kind.ofSymbol? c = some k)
    (hc' : Token.Kind.ofSymbol? c' = some m)
    (hpaired : k ≠ .quit ∧ Dialect.full.groupings.lookup k = some m)
    (h : s.At (c :: (x.code.toList ++ c' :: z))) :
    ∃ (T : Tree .full .factor) (s' : Scanner), s.Gives T.yield s' ∧ s'.At z ∧
      ∀ b, T.value b = x.own := by
  obtain ⟨opening, closing, T, s', hgives, rfl, rfl, hs', hvalue⟩ := reads_between hx hc hc' h
  have hclosing := (closing?_full hpaired.1).trans hpaired.2
  exact ⟨.group opening T closing hclosing, s', hgives, hs', hvalue⟩

/-- A sample between bars. -/
theorem reads_bars {x : Sample .expression}
    (hx : ∀ {s z}, s.At (x.code.toList ++ z) → Numeral.Delimits z → x.Reads s z)
    (h : s.At ('|' :: (x.code.toList ++ '|' :: z))) :
    (enclosed .bars x).Reads s z := by
  obtain ⟨opening, closing, T, s', hgives, hk, hk', hs', hvalue⟩ :=
    reads_between hx (k := .bar) (m := .bar) rfl rfl h
  have hplain := Dialect.closing?_full_eq_none hk rfl
  refine ⟨.bars rfl ⟨opening, hk, hplain⟩ T ⟨closing, hk'⟩, s', hgives, hs', fun b => ?_⟩
  show (T.value b >>= fun v => pure v.abs) = _
  rw [hvalue, own]

/-- Two samples with an operator between them. -/
theorem reads_operands {tier tier' : Tier} {x : Sample tier} {y : Sample tier'}
    (hx : ∀ {s z}, s.At (x.code.toList ++ z) → Numeral.Delimits z → x.Reads s z)
    (hy : ∀ {s z}, s.At (y.code.toList ++ z) → Numeral.Delimits z → y.Reads s z)
    {c : Char} {k : Token.Kind} (hc : Token.Kind.ofSymbol? c = some k)
    (h : s.At (x.code.toList ++ ' ' :: c :: ' ' :: (y.code.toList ++ z)))
    (hz : Numeral.Delimits z) :
    ∃ (T : Tree .full tier) (sign : Token) (U : Tree .full tier') (s' : Scanner),
      s.Gives (T.yield ++ sign :: U.yield) s' ∧ sign.kind = k ∧ s'.At z ∧
        (∀ b, T.value b = x.own) ∧ ∀ b, U.value b = y.own := by
  obtain ⟨T, s₁, hT, h, hvalue⟩ := hx h (Numeral.delimits_cons (by decide))
  obtain ⟨sign, s₂, hsign, hk, h⟩ := (h.of_blank (by decide)).symbol hc
  obtain ⟨U, s', hU, hs', hvalue'⟩ := hy (h.of_blank (by decide)) hz
  exact ⟨T, sign, U, s', gives_append.2 ⟨s₁, hT, s₂, hsign, hU⟩, hk, hs', hvalue, hvalue'⟩

/-- The code of a sample is scanned as a tree of its tier. -/
theorem reads_code {tier : Tier} (x : Sample tier) {s : Scanner} {z : List Char}
    (h : s.At (x.code.toList ++ z)) (hz : Numeral.Delimits z) : x.Reads s z := by
  -- The text behind a part of the sample is the rest of the sample with `z` behind it.
  induction x generalizing s z with
  | literal l =>
    rw [code, ← l.text_numeral] at h
    obtain ⟨t, s', hget, hk, hvalue, hs'⟩ := h.number l.wellFormed_numeral hz
    have hplain := Dialect.closing?_full_eq_none hk rfl
    refine ⟨.number ⟨t, hk, hplain⟩, s', gives_singleton.2 hget, hs', fun b => ?_⟩
    rw [Tree.value, own, hvalue, l.value_eq]
  | negated x ih =>
    have hcode : (negated x).code.toList ++ z = '-' :: (x.code.toList ++ z) := by simp [code]
    rw [hcode] at h
    obtain ⟨sign, s₁, hsign, hk, h⟩ := h.symbol (k := .minus) rfl
    obtain ⟨T, s', hT, hs', hvalue⟩ := ih h hz
    have hplain := Dialect.closing?_full_eq_none hk rfl
    refine ⟨.negated ⟨sign, hk, hplain⟩ T, s', ⟨s₁, hsign, hT⟩, hs', fun b => ?_⟩
    rw [Tree.value, hvalue, own]
  | enclosed pair x ih =>
    have hcode : (enclosed pair x).code.toList ++ z =
        pair.opening.toList ++ (x.code.toList ++ (pair.closing.toList ++ z)) := by simp [code]
    rw [hcode] at h
    cases pair with
    | parens => exact reads_group ih (k := .openParen) (m := .closeParen) rfl rfl (by decide) h
    | braces => exact reads_group ih (k := .openBrace) (m := .closeBrace) rfl rfl (by decide) h
    | brackets =>
      exact reads_group ih (k := .openBracket) (m := .closeBracket) rfl rfl (by decide) h
    | bars => exact reads_bars ih h
  | factor x ih =>
    obtain ⟨T, s', hT, hs', hvalue⟩ := ih h hz
    exact ⟨.factor T, s', hT, hs', hvalue⟩
  | raised x y ihx ihy =>
    have hcode : (raised x y).code.toList ++ z = x.code.toList ++ '^' :: (y.code.toList ++ z) := by
      simp [code]
    rw [hcode] at h
    obtain ⟨T, s₁, hT, h, hvalue⟩ := ihx h (Numeral.delimits_cons (by decide))
    obtain ⟨mark, s₂, hmark, hk, h⟩ := h.symbol (k := .caret) rfl
    obtain ⟨U, s', hU, hs', hvalue'⟩ := ihy h hz
    refine ⟨.raised T ⟨mark, hk⟩ U, s', gives_append.2 ⟨s₁, hT, s₂, hmark, hU⟩, hs', fun b => ?_⟩
    rw [Tree.value, hvalue, hvalue', own]
  | power x ih =>
    obtain ⟨T, s', hT, hs', hvalue⟩ := ih h hz
    exact ⟨.power T, s', hT, hs', hvalue⟩
  | product x op y ihx ihy =>
    obtain ⟨c, hc, hcode⟩ : ∃ c, Token.Kind.ofSymbol? c = some op.kind ∧
        (product x op y).code.toList ++ z =
          x.code.toList ++ ' ' :: c :: ' ' :: (y.code.toList ++ z) := by
      cases op
      · exact ⟨'*', rfl, by simp [code, ProductOp.symbol]⟩
      · exact ⟨'/', rfl, by simp [code, ProductOp.symbol]⟩
      · exact ⟨'%', rfl, by simp [code, ProductOp.symbol]⟩
    rw [hcode] at h
    obtain ⟨T, sign, U, s', hgives, hk, hs', hvalue, hvalue'⟩ := reads_operands ihx ihy hc h hz
    refine ⟨.product T op ⟨sign, hk⟩ U, s', hgives, hs', fun b => ?_⟩
    rw [Tree.value, hvalue, hvalue', own]
  | term x ih =>
    obtain ⟨T, s', hT, hs', hvalue⟩ := ih h hz
    exact ⟨.term T, s', hT, hs', hvalue⟩
  | sum x op y ihx ihy =>
    obtain ⟨c, hc, hcode⟩ : ∃ c, Token.Kind.ofSymbol? c = some op.kind ∧
        (sum x op y).code.toList ++ z =
          x.code.toList ++ ' ' :: c :: ' ' :: (y.code.toList ++ z) := by
      cases op
      · exact ⟨'+', rfl, by simp [code, SumOp.symbol]⟩
      · exact ⟨'-', rfl, by simp [code, SumOp.symbol]⟩
    rw [hcode] at h
    obtain ⟨T, sign, U, s', hgives, hk, hs', hvalue, hvalue'⟩ := reads_operands ihx ihy hc h hz
    refine ⟨.sum T op ⟨sign, hk⟩ U, s', hgives, hs', fun b => ?_⟩
    rw [Tree.value, hvalue, hvalue', own]

end reading

/-- The sample as an expression. -/
def whole : {tier : Tier} → Sample tier → Sample .expression
  | .factor, x => term (power (factor x))
  | .power, x => term (power x)
  | .term, x => term x
  | .expression, x => x

theorem code_whole {tier : Tier} (x : Sample tier) : x.whole.code = x.code := by
  cases tier <;> rfl

theorem own_whole {tier : Tier} (x : Sample tier) : x.whole.own = x.own := by
  cases tier <;> rfl

/-- The code of a sample is one expression, and nothing stands behind it. -/
theorem sentence_code {tier : Tier} (x : Sample tier) :
    ∃ (T : Tree .full .expression) (t : Token) (s' : Scanner),
      (Scanner.ofText Dialect.full.keywords x.code.toList).Gives (T.yield ++ [t]) s' ∧ t.isEnd ∧
        ∀ b, T.value b = x.own := by
  have h := At.ofText (x.whole.code.toList ++ [])
  obtain ⟨T, s₁, hT, hs₁, hvalue⟩ := x.whole.reads_code h Numeral.delimits_nil
  obtain ⟨t, s', hget, hend, -⟩ := hs₁.endOfText
  rw [List.append_nil, code_whole] at hT
  refine ⟨T, t, s', gives_append.2 ⟨s₁, hT, gives_singleton.2 hget⟩, hend, fun b => ?_⟩
  rw [hvalue, own_whole]

end Sample

/-! ## The calculator on a sample -/

/-- What is read decides what is calculated. -/
theorem calculated_eq (code : String) :
    calculated code =
      match readStatement .full .initial (.ofText Dialect.full.keywords code.toList) with
      | .ok a r =>
        match Session.perform a ⟨.full, r, .initial⟩ with
        | .ok outcome _ => .ok outcome.value
        | .error fault _ => .error fault
      | .error fault _ => .error fault := by
  have hstatement := Session.statement_eq (.ofText .full .initial code.toList)
  dsimp only [Session.ofText] at hstatement
  unfold calculated
  dsimp only [Session.ofText]
  rw [hstatement]
  cases readStatement .full .initial (.ofText Dialect.full.keywords code.toList) <;> rfl

/-- The calculator gives to a sample its value, or rejects it for its first
    error. -/
theorem calculated_code {tier : Tier} (x : Sample tier) :
    (∀ v, x.own = .ok v → calculated x.code = .ok v) ∧
      ∀ cause, x.own = .error cause →
        ∃ place, calculated x.code = .error (.rejected ⟨cause, place⟩) := by
  obtain ⟨T, t, s', hgives, hend, hvalue⟩ := x.sentence_code
  have hread := readStatement_of_yield (b := .initial) (fun _ _ h => h) hgives
    (not_canExtend_of_isStop T (.inr (Token.kind_of_isEnd hend)))
  rw [hvalue] at hread
  rw [calculated_eq]
  constructor
  · intro v hv
    rw [hv] at hread
    have hread : readStatement .full .initial (.ofText Dialect.full.keywords x.code.toList) =
      .ok (.print v) (s'.hold t) := hread
    rw [hread]
    rfl
  · intro cause hcause
    rw [hcause] at hread
    obtain ⟨place, r, hread⟩ := hread
    exact ⟨place, by rw [hread]⟩

end CrossCheck

end Calculator
