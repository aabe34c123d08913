import Calculator.Proofs.Bindings.Changes
import Calculator.Proofs.Decimal.Significant
import Calculator.Proofs.Session.Sentences
import Calculator.Proofs.Token.Ahead
import Calculator.Proofs.Token.Pieces

/-! # Results that are read back

    The text of a result is an expression of the language: a literal, behind a
    sign if the result is negative. To seventeen digits or more, up to the greatest
    precision, the value of this expression is the result, down to the last bit and
    to the sign of a zero, and nothing but the end of the text stands behind it
    (`Session.printed_result_reads_back`).
-/

namespace Calculator

open CrossCheck (Tier)
open Binary64 Reading Scanner
open Text (isBlank)

/-! ## The end of the text -/

/-- Nothing is left but the end of the text, which every call gives. -/
def Scanner.Drained (s : Scanner) : Prop := ∀ n, ∃ t, s.given n = .ok t ∧ t.isEnd

namespace Scanner

variable {s s' : Scanner} {t : Token}

theorem At.drained (h : s.At []) : s.Drained := by
  intro n
  induction n generalizing s with
  | zero =>
    obtain ⟨t, s', hget, hend, -⟩ := h.endOfText
    exact ⟨t, congrArg Prod.fst hget, hend⟩
  | succ n ih =>
    obtain ⟨t, s', hget, -, hs'⟩ := h.endOfText
    rw [given_succ, hget]
    exact ih hs'

/-- The end of the text can be put back. -/
theorem Drained.hold (h : s'.Drained) (hget : s.get = (.ok t, s')) (ht : t.isEnd) :
    (s'.hold t).Drained := by
  intro n
  cases n with
  | zero => exact ⟨t, congrArg Prod.fst (get_hold hget), ht⟩
  | succ n =>
    rw [given_succ, get_hold hget]
    exact h n

end Scanner

/-! ## The text of a result -/

/-- What is left of the text is one phrase of the given tier, and its value is `v`
    whatever the bindings are. -/
def Scanner.Denotes (s : Scanner) (tier : Tier) (v : Float) : Prop :=
  ∃ (T : Tree .full tier) (t : Token) (s' : Scanner), s.Gives (T.yield ++ [t]) s' ∧ t.IsStop ∧
    (s'.hold t).Drained ∧ ∀ b, T.value b = .ok v

namespace Scanner

variable {s : Scanner}

theorem At.literal {n : Numeral} (hn : n.WellFormed) (h : s.At n.text) :
    s.Denotes .factor n.value := by
  rw [← List.append_nil n.text] at h
  obtain ⟨number, s₁, hget, hk, hvalue, h⟩ := h.number hn Numeral.delimits_nil
  obtain ⟨t, s', hget', hend, h⟩ := h.endOfText
  have hplain := Dialect.closing?_full_eq_none hk rfl
  refine ⟨.number ⟨number, hk, hplain⟩, t, s', ⟨s₁, hget, s', hget', rfl⟩,
    .inr (Token.kind_of_isEnd hend), h.drained.hold hget' hend, fun b => ?_⟩
  rw [Tree.value, hvalue]

theorem At.negated {z : List Char} {v : Float} (hz : ∀ {s : Scanner}, s.At z → s.Denotes .factor v)
    (h : s.At ('-' :: z)) : s.Denotes .factor (-v) := by
  obtain ⟨sign, s₁, hget, hk, h⟩ := h.symbol (k := .minus) rfl
  obtain ⟨T, t, s', hgives, ht, hdrained, hT⟩ := hz h
  have hplain := Dialect.closing?_full_eq_none hk rfl
  refine ⟨.negated ⟨sign, hk, hplain⟩ T, t, s', ⟨s₁, hget, hgives⟩, ht, hdrained, fun b => ?_⟩
  rw [Tree.value, hT]
  rfl

theorem Denotes.expression {v : Float} (h : s.Denotes .factor v) : s.Denotes .expression v := by
  obtain ⟨T, t, s', hgives, ht, hdrained, hT⟩ := h
  exact ⟨.term (.power (.factor T)), t, s', hgives, ht, hdrained, hT⟩

/-- The text of a result is an expression for it. -/
theorem At.result {p : Nat} {x : Float} (hp : 17 ≤ p) (hx : x.isFinite = true)
    (h : s.At (resultChars p x)) : s.Denotes .expression x := by
  obtain ⟨n, hn, htext, hvalue⟩ := exists_resultChars_eq hp hx
  rw [htext] at h
  cases hs : negative x with
  | false =>
    rw [hs, if_neg Bool.false_ne_true] at h hvalue
    rw [← hvalue]
    exact (At.literal hn h).expression
  | true =>
    rw [hs, if_pos rfl] at h hvalue
    rw [← hvalue]
    exact (At.negated (At.literal hn) h).expression

end Scanner

/-! ## Declarations -/

/-- The text can be declared as a name: it is a word without another meaning, and
    not declared yet. -/
structure Bindings.Free (b : Bindings) (name : List Char) : Prop where
  word : Token.scanWord? name = some name
  plain : Token.wordKind Dialect.full.keywords (String.ofList name) = .name
  undeclared : String.ofList name ∉ b.names

/-- At the beginning of a declaration the scanner is at its first three tokens. -/
theorem Scanner.At.declaration {s : Scanner} {b : Bindings} {name w₁ w₂ w₃ z : List Char}
    (hname : b.Free name) (hne : w₁ ≠ []) (hblank : ∀ c ∈ w₁ ++ w₂ ++ w₃, isBlank c)
    (h : s.At ("let".toList ++ (w₁ ++ (name ++ (w₂ ++ '=' :: (w₃ ++ z)))))) :
    ∃ (word declared sign : Token) (s' : Scanner), s.Gives [word, declared, sign] s' ∧
      word.kind = .letWord ∧ declared.kind = .name ∧ declared.lexeme = String.ofList name ∧
      sign.kind = .equals ∧ s'.At z := by
  have hblank₁ : ∀ c ∈ w₁, isBlank c := fun c hc => hblank c (by simp [hc])
  have hblank₂ : ∀ c ∈ w₂, isBlank c := fun c hc => hblank c (by simp [hc])
  have hblank₃ : ∀ c ∈ w₃, isBlank c := fun c hc => hblank c (by simp [hc])
  obtain ⟨word, s₁, hword, hk, -, h⟩ := h.word rfl
    (Token.endsWord_append hblank₁ fun hnil => absurd hnil hne)
  obtain ⟨declared, s₂, hdeclared, hk', hlexeme, h⟩ := (h.of_blanks hblank₁).word hname.word
    (Token.endsWord_append hblank₂ fun _ => Token.endsWord_cons (by decide))
  obtain ⟨sign, s', hsign, hk'', h⟩ := (h.of_blanks hblank₂).symbol (k := .equals) rfl
  exact ⟨word, declared, sign, s', ⟨s₁, hword, s₂, hdeclared, s', hsign, rfl⟩, hk,
    hk'.trans hname.plain, hlexeme, hk'', h.of_blanks hblank₃⟩

/-! ## Reading back -/

namespace Session

/-- Printed results are read back. A finite double `x` has a text to seventeen
    significant digits or more, up to the greatest precision. It is accepted by one
    statement with the value `x`, bit for bit. So is the declaration of a free name
    with this text on its right-hand side, and the name is then declared with the
    value `x`. In both cases nothing but the end of the text is left. -/
theorem printed_result_reads_back {x : Float} (hx : x.isFinite = true) {p : Int} (hp : 17 ≤ p)
    (hmax : p ≤ maxPrecision) (b : Bindings) :
    ∃ text, resultText? p x = some text ∧
      (∃ s', (ofText .full b text.toList).statement = .ok ⟨x, none⟩ s' ∧
        s'.bindings = b ∧ s'.scanner.Drained) ∧
      ∀ name w₁ w₂ w₃ : List Char, b.Free name → w₁ ≠ [] → (∀ c ∈ w₁ ++ w₂ ++ w₃, isBlank c) →
        ∃ s', (ofText .full b ("let".toList ++ (w₁ ++ (name ++ (w₂ ++ '=' ::
            (w₃ ++ text.toList)))))).statement =
              .ok ⟨x, some (.declared (String.ofList name) x false)⟩ s' ∧
          s'.bindings = b.apply (.declared (String.ofList name) x false) ∧
          s'.scanner.Drained := by
  have hfull : Dialect.full.GroupsWithin .full := fun _ _ h => h
  obtain ⟨k, rfl⟩ := Int.eq_ofNat_of_zero_le (show 0 ≤ p by omega)
  have hk : 17 ≤ k := by omega
  have htext : resultText? k x = some (String.ofList (resultChars k x)) := by
    rw [resultText?, if_pos (by simpa using hmax)]
    rfl
  refine ⟨_, htext, ?_⟩
  rw [String.toList_ofList]
  refine ⟨?_, fun name w₁ w₂ w₃ hname hne hblank => ?_⟩
  · obtain ⟨T, t, r, hgives, ht, hdrained, hvalue⟩ := (At.ofText (resultChars k x)).result hk hx
    exact ⟨_, statement_of_sentence (s := ofText .full b (resultChars k x)) hfull
      (.print (hvalue b)) rfl hgives ht, rfl, hdrained⟩
  · obtain ⟨word, declared, sign, s₁, hclause, hword, hdeclared, hlexeme, hsign, h⟩ :=
      (At.ofText _).declaration hname hne hblank
    obtain ⟨T, t, r, hgives, ht, hdrained, hvalue⟩ := h.result hk hx
    have hsentence := Sentence.letClause hword hdeclared hsign (hvalue b)
    rw [hlexeme] at hsentence
    have hfree := Bindings.find?_eq_none_iff.2 hname.undeclared
    have hgives' := gives_append.2 ⟨s₁, hclause, hgives⟩
    exact ⟨_, statement_of_sentence (s := ofText .full b _) hfull hsentence
      (Bindings.change?_declare_eq_ok.2 ⟨hfree, rfl⟩) hgives' ht, rfl, hdrained⟩

/-- The least positive double, negated. -/
theorem printed_result_reads_back_least :
    let x := ofCode true 1
    let text := "-4.9406564584124654e-324"
    x.isFinite = true ∧ (17 : Int) ≤ 17 ∧ 17 ≤ maxPrecision ∧ resultText? 17 x = some text ∧
      (∃ s', (ofText .full .initial text.toList).statement = .ok ⟨x, none⟩ s' ∧
        s'.scanner.Drained) ∧
      ∃ s', (ofText .full .initial ("let tiny = " ++ text).toList).statement =
        .ok ⟨x, some (.declared "tiny" x false)⟩ s' ∧ s'.scanner.Drained := by
  have hx : (ofCode true 1).isFinite = true := by decide +kernel
  have hmax : 17 ≤ maxPrecision := by decide
  have hprinted : resultText? 17 (ofCode true 1) = some "-4.9406564584124654e-324" := by
    decide +kernel
  have hname : Bindings.initial.Free "tiny".toList := ⟨rfl, by decide, by decide⟩
  obtain ⟨text, htext, ⟨s', hstatement, -, hdrained⟩, hlet⟩ :=
    printed_result_reads_back hx (Int.le_refl 17) hmax .initial
  obtain rfl : "-4.9406564584124654e-324" = text := Option.some.inj (hprinted.symm.trans htext)
  obtain ⟨s'', hstatement', -, hdrained'⟩ :=
    hlet "tiny".toList [' '] [' '] [' '] hname (by decide) (List.all_eq_true.1 rfl)
  exact ⟨hx, Int.le_refl 17, hmax, hprinted, ⟨s', hstatement, hdrained⟩, s'', hstatement',
    hdrained'⟩

/-- One digit more than the greatest precision cannot be asked for, and then not even `1`
    has a text. -/
theorem printed_result_beyond_greatest :
    (1 : Float).isFinite = true ∧ (17 : Int) ≤ 2147483648 ∧ resultText? 2147483648 1 = none := by
  decide +kernel

end Session

end Calculator
