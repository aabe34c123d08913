import Calculator.Proofs.Dialect
import Calculator.Proofs.Grammar.Tree
import Calculator.Proofs.Reading.Tokens

/-! # What the grammar derives is read

    If the tokens that come next are the yield of a tree, followed by one that
    cannot extend it, then reading them comes to the value of the tree
    (`expression_of_yield`).

    The proof is an induction on the tree. A factor is read up to its last
    token. The other readers look one token ahead, so their statements speak of
    the token `t` behind the tree, and of a state in which `t` is the next
    token: whether it was put back there or has not been read does not matter.
    Sums and products lean to the left while they are read from the left, so a
    tree of these tiers is not read to its end. Reading it amounts to continuing
    a sum or product with the value of the tree as the value so far, and
    whether the tree is continued is left to the token `t`.
-/

namespace Calculator

open CrossCheck (Tier SumOp ProductOp)
open Reading Scanner

/-! ## Coming to a value -/

/-- The result `r` is what the value `v` says: `goal` of its number, or a
    rejection for its cause. -/
def Comes {α β : Type} (r : EStateM.Result Fault Scanner β) (v : Except Cause α)
    (goal : α → EStateM.Result Fault Scanner β → Prop) : Prop :=
  match v with
  | .ok x => goal x r
  | .error cause => ∃ place s', r = .error (.rejected ⟨cause, place⟩) s'

namespace Comes

variable {α β γ δ : Type} {s : Scanner} {r : EStateM.Result Fault Scanner β}
  {v : Except Cause α} {mid : α → EStateM.Result Fault Scanner β → Prop}

/-- What follows on a value depends on it. -/
theorem chain {g : α → Except Cause δ} {goal : δ → EStateM.Result Fault Scanner β → Prop}
    (h : Comes r v mid) (hg : ∀ x, mid x r → Comes r (g x) goal) : Comes r (v >>= g) goal := by
  cases v with
  | ok x => exact hg x h
  | error cause => exact h

theorem mono {goal : α → EStateM.Result Fault Scanner β → Prop} (h : Comes r v mid)
    (hg : ∀ x, mid x r → goal x r) : Comes r v goal := by
  cases v with
  | ok x => exact hg x h
  | error cause => exact h

/-- A reading that comes to a value is followed by one that comes to another. -/
theorem bind {m : Reading β} {f : β → Reading γ} {g : α → Except Cause δ}
    {goal : δ → EStateM.Result Fault Scanner γ → Prop} (hm : Comes (m s) v mid)
    (hf : ∀ x, mid x (m s) → Comes ((m >>= f) s) (g x) goal) :
    Comes ((m >>= f) s) (v >>= g) goal := by
  cases v with
  | ok x => exact hf x hm
  | error cause =>
    obtain ⟨place, s', h⟩ := hm
    exact ⟨place, s', bind_of_error h⟩

/-- A reading that comes to a value is followed by one that keeps it. -/
theorem andThen {m : Reading β} {f : β → Reading γ}
    {goal : α → EStateM.Result Fault Scanner γ → Prop} (hm : Comes (m s) v mid)
    (hf : ∀ x, mid x (m s) → goal x ((m >>= f) s)) : Comes ((m >>= f) s) v goal := by
  cases v with
  | ok x => exact hf x hm
  | error cause =>
    obtain ⟨place, s', h⟩ := hm
    exact ⟨place, s', bind_of_error h⟩

end Comes

/-- A value at a token, or its rejection there. -/
theorem comes_located (t : Token) (v : Except Cause Float) (s : Scanner) :
    Comes (located t v s) v fun x r => r = .ok x s := by
  cases v with
  | ok x => exact rfl
  | error cause => exact ⟨_, _, rfl⟩

/-! ## What reading a tree comes to -/

variable {d : Dialect} {b : Bindings}

/-- Reading the yield of a tree comes to its value. -/
def Reads (b : Bindings) : {tier : Tier} → Tree d tier → Prop
  | .factor, T => ∀ s s', s.Gives T.yield s' →
    Comes (readFactor d b s) (T.value b) fun x r => r = .ok x s'
  | .power, T => ∀ s s₁ s' t, s.Gives T.yield s₁ → s₁.get = (.ok t, s') →
    ¬ T.TakesPostfix t.kind →
    Comes (readPower d b s) (T.value b) fun x r => ∃ r₁, r = .ok x r₁ ∧ r₁.get = (.ok t, s')
  | .term, T => ∀ s s₁ s' t, s.Gives T.yield s₁ → s₁.get = (.ok t, s') →
    ¬ T.TakesPostfix t.kind →
    Comes (readTerm d b s) (T.value b) fun x r =>
      ∃ r₁, r = readProduct d b x r₁ ∧ r₁.get = (.ok t, s')
  | .expression, T => ∀ s s₁ s' t, s.Gives T.yield s₁ → s₁.get = (.ok t, s') →
    ¬ T.TermTakes t.kind →
    Comes (expression d b s) (T.value b) fun x r =>
      ∃ r₁, r = readSum d b x r₁ ∧ r₁.get = (.ok t, s')

/-! ### Powers -/

theorem reads_factor {x : Tree d .factor} (hx : Reads b x) : Reads b (.factor x) := by
  intro s s₁ s' t hyield ht hnot
  have hpost : ¬ t.kind.IsPostfix := fun h => hnot ⟨rfl, h⟩
  rw [readPower_eq]
  -- The power looks at `t` and puts it back.
  refine (hx s s₁ hyield).andThen fun v h => ⟨s'.hold t, ?_, get_hold ht⟩
  rw [bind_of_ok h, next_bind ht, powerAfter_of_other hpost, putBack_bind ht]
  rfl

theorem reads_factorial {x : Tree d .factor} (hx : Reads b x) (mark : Token.Of .bang) :
    Reads b (.factorial x mark) := by
  intro s s₁ s' t hyield ht _
  obtain ⟨s₀, hyield, hmark⟩ := gives_append.1 hyield
  rw [gives_singleton] at hmark
  rw [readPower_eq]
  refine (hx s s₀ hyield).bind fun v h => ?_
  rw [bind_of_ok h, next_bind hmark, powerAfter, mark.2]
  -- The mark ends the power, and `t` has not been looked at.
  exact (comes_located _ _ _).mono fun w hw => ⟨s₁, hw, ht⟩

theorem reads_raised {x y : Tree d .factor} (hx : Reads b x) (mark : Token.Of .caret)
    (hy : Reads b y) : Reads b (.raised x mark y) := by
  intro s s₁ s' t hyield ht _
  obtain ⟨s₀, hyield, s₂, hmark, hyield'⟩ := gives_append.1 hyield
  rw [readPower_eq]
  refine (hx s s₀ hyield).bind fun v h => ?_
  rw [bind_of_ok h, next_bind hmark, powerAfter, mark.2]
  refine (hy s₂ s₁ hyield').bind fun w hw => ?_
  exact ⟨s₁, bind_of_ok hw, ht⟩

/-! ### Terms -/

theorem reads_power {x : Tree d .power} (hx : Reads b x) : Reads b (.power x) := by
  intro s s₁ s' t hyield ht hnot
  rw [readTerm_eq]
  refine (hx s s₁ s' t hyield ht hnot).andThen fun v h => ?_
  obtain ⟨r₁, h, hr₁⟩ := h
  exact ⟨r₁, bind_of_ok h, hr₁⟩

theorem not_isPostfix_productOp (op : ProductOp) : ¬ op.kind.IsPostfix := by
  cases op <;> simp [ProductOp.kind, Token.Kind.IsPostfix]

theorem reads_product {x : Tree d .term} {y : Tree d .power} (hx : Reads b x) (op : ProductOp)
    (sign : Token.Of op.kind) (hy : Reads b y) : Reads b (.product x op sign y) := by
  intro s s₁ s' t hyield ht hnot
  obtain ⟨s₀, hyield, s₂, hsign, hyield'⟩ := gives_append.1 hyield
  have hpost : ¬ x.TakesPostfix sign.val.kind := by
    rw [sign.2]
    exact fun h => not_isPostfix_productOp op h.2
  -- Reading `x` leaves a product to be continued, with the sign as its next token.
  refine (hx s s₀ s₂ sign hyield hsign hpost).chain fun v h => ?_
  obtain ⟨r₁, h, hr₁⟩ := h
  rw [h, readProduct_eq, next_bind hr₁, productAfter_of_op sign.2]
  refine (hy s₂ s₁ s' t hyield' ht hnot).bind fun w hw => ?_
  obtain ⟨r₂, hw, hr₂⟩ := hw
  rw [bind_of_ok hw]
  exact (comes_located _ _ _).andThen fun z hz => ⟨r₂, bind_of_ok hz, hr₂⟩

/-! ### Expressions -/

/-- A product ends in front of a token that does not continue it. -/
theorem readProduct_of_other {s s' : Scanner} {t : Token} (ht : s.get = (.ok t, s'))
    (hother : ∀ op : ProductOp, t.kind ≠ op.kind) (v : Float) :
    readProduct d b v s = .ok v (s'.hold t) := by
  rw [readProduct_eq, next_bind ht, productAfter_of_other hother, putBack_bind ht]
  rfl

/-- A sum ends in front of a token that does not continue it. -/
theorem readSum_of_other {s s' : Scanner} {t : Token} (ht : s.get = (.ok t, s'))
    (hother : ∀ op : SumOp, t.kind ≠ op.kind) (v : Float) :
    readSum d b v s = .ok v (s'.hold t) := by
  rw [readSum_eq, next_bind ht, sumAfter_of_other hother, putBack_bind ht]
  rfl

/-- A term is read to its end if the token behind it does not belong to it. -/
theorem Reads.term_ends {T : Tree d .term} (h : Reads b T) {s s₁ s' : Scanner} {t : Token}
    (hyield : s.Gives T.yield s₁) (ht : s₁.get = (.ok t, s')) (hnot : ¬ T.TermTakes t.kind) :
    Comes (readTerm d b s) (T.value b) fun x r => r = .ok x (s'.hold t) := by
  refine (h s s₁ s' t hyield ht fun h => hnot (.inl h)).mono fun v hv => ?_
  obtain ⟨r₁, hv, hr₁⟩ := hv
  rw [hv, readProduct_of_other hr₁ fun op h => hnot (.inr ⟨op, h⟩)]

/-- An expression is read to its end if the token behind it cannot extend it. -/
theorem Reads.expression_ends {T : Tree d .expression} (h : Reads b T) {s s₁ s' : Scanner}
    {t : Token} (hyield : s.Gives T.yield s₁) (ht : s₁.get = (.ok t, s'))
    (hnot : ¬ T.CanExtend t) :
    Comes (expression d b s) (T.value b) fun x r => r = .ok x (s'.hold t) := by
  refine (h s s₁ s' t hyield ht fun h => hnot (.inl h)).mono fun v hv => ?_
  obtain ⟨r₁, hv, hr₁⟩ := hv
  rw [hv, readSum_of_other hr₁ fun op h => hnot (.inr ⟨op, h⟩)]

theorem reads_term {x : Tree d .term} (hx : Reads b x) : Reads b (.term x) := by
  intro s s₁ s' t hyield ht hnot
  rw [expression_eq]
  exact (hx.term_ends hyield ht hnot).andThen fun v h => ⟨_, bind_of_ok h, get_hold ht⟩

theorem not_termTakes_sumOp {tier : Tier} (T : Tree d tier) (op : SumOp) :
    ¬ T.TermTakes op.kind := by
  rintro (⟨-, h⟩ | ⟨op', h⟩)
  · cases op <;> simp [SumOp.kind, Token.Kind.IsPostfix] at h
  · cases op <;> cases op' <;> simp [SumOp.kind, ProductOp.kind] at h

theorem reads_sum {x : Tree d .expression} {y : Tree d .term} (hx : Reads b x) (op : SumOp)
    (sign : Token.Of op.kind) (hy : Reads b y) : Reads b (.sum x op sign y) := by
  intro s s₁ s' t hyield ht hnot
  obtain ⟨s₀, hyield, s₂, hsign, hyield'⟩ := gives_append.1 hyield
  have hsum : ¬ x.TermTakes sign.val.kind := by
    rw [sign.2]
    exact not_termTakes_sumOp x op
  -- The same for a sum, except that the operand has to be read to its end.
  refine (hx s s₀ s₂ sign hyield hsign hsum).chain fun v h => ?_
  obtain ⟨r₁, h, hr₁⟩ := h
  rw [h, readSum_eq, next_bind hr₁, sumAfter_of_op sign.2]
  refine (hy.term_ends hyield' ht hnot).bind fun w hw => ?_
  exact ⟨_, bind_of_ok hw, get_hold ht⟩

/-! ### Factors -/

/-- A closing bracket does not extend the expression in front of it. -/
theorem not_canExtend_of_closing (T : Tree d .expression) {t : Token}
    (h : t.kind.closingBracket?.isSome) : ¬ T.CanExtend t := by
  unfold Tree.CanExtend Tree.TermTakes Tree.TakesPostfix Token.Kind.IsPostfix
  rintro ((⟨-, hk | hk⟩ | ⟨op, hk⟩) | ⟨op, hk⟩)
  · rw [hk] at h; exact absurd h (by decide)
  · rw [hk] at h; exact absurd h (by decide)
  · rw [hk] at h; cases op <;> exact absurd h (by decide)
  · rw [hk] at h; cases op <;> exact absurd h (by decide)

/-- The rest of a group is read through its closing bracket. -/
theorem comes_groupRest {T : Tree d .expression} (h : Reads b T) {s s₁ s' : Scanner}
    {closing : Token} (hyield : s.Gives T.yield s₁) (ht : s₁.get = (.ok closing, s'))
    (hclosing : closing.kind.closingBracket?.isSome) (f : Float → Float) :
    Comes (groupRest (expression d b) closing.kind f s) (T.value b) fun x r =>
      r = .ok (f x) s' := by
  obtain ⟨bracket, hb⟩ := Option.isSome_iff_exists.1 hclosing
  refine (h.expression_ends hyield ht (not_canExtend_of_closing T hclosing)).andThen
    fun x hx => ?_
  rw [bind_of_ok hx, bind_of_ok (expectClosing_of_get hb (get_hold ht) rfl)]
  rfl

theorem reads_group (hd : d.Closable) (opening : Token) {inner : Tree d .expression}
    (hx : Reads b inner) (closing : Token) (paired : d.closing? opening = some closing.kind) :
    Reads b (.group opening inner closing paired) := by
  intro s s' hyield
  obtain ⟨s₀, hopening, hyield⟩ := hyield
  obtain ⟨s₁, hyield, hclosing⟩ := gives_append.1 hyield
  rw [gives_singleton] at hclosing
  rw [readFactor_eq, next_bind hopening, factorAfter_of_closing paired]
  exact comes_groupRest hx hyield hclosing (hd _ _ paired) id

theorem reads_bars (enabled : d.absoluteValue = true) (opening : d.Plain .bar)
    {inner : Tree d .expression} (hx : Reads b inner) (closing : Token.Of .bar) :
    Reads b (.bars enabled opening inner closing) := by
  intro s s' hyield
  obtain ⟨s₀, hopening, hyield⟩ := hyield
  obtain ⟨s₁, hyield, hclosing⟩ := gives_append.1 hyield
  rw [gives_singleton] at hclosing
  rw [readFactor_eq, next_bind hopening, factorAfter, opening.2.1, opening.2.2]
  dsimp only
  -- The closing bar is met where the expression ends, so it opens nothing.
  rw [if_pos enabled, ← closing.2]
  exact (comes_groupRest hx hyield hclosing (by rw [closing.2]; rfl) Float.abs).chain
    fun x h => h

theorem reads_root (word : d.Plain .rootWord) (opening : Token.Of .openParen)
    {inner : Tree d .expression} (hx : Reads b inner) (closing : Token.Of .closeParen) :
    Reads b (.root word opening inner closing) := by
  intro s s' hyield
  obtain ⟨s₀, hword, s₁, hopening, hyield⟩ := hyield
  obtain ⟨s₂, hyield, hclosing⟩ := gives_append.1 hyield
  rw [gives_singleton] at hclosing
  have hbracket : closing.val.kind.closingBracket?.isSome := by rw [closing.2]; rfl
  rw [readFactor_eq, next_bind hword, factorAfter, word.2.1, word.2.2]
  dsimp only
  rw [rootRest, bind_of_ok (expect_of_get hopening opening.2)]
  refine (hx.expression_ends hyield hclosing (not_canExtend_of_closing inner hbracket)).bind
    fun x h => ?_
  rw [bind_of_ok h]
  -- an error of the root comes before the closing parenthesis is missed
  refine (comes_located _ _ _).andThen fun y hy => ?_
  rw [bind_of_ok hy, bind_of_ok (expectClosing_of_get rfl (get_hold hclosing) closing.2)]
  rfl

theorem reads_negated (sign : d.Plain .minus) {x : Tree d .factor} (hx : Reads b x) :
    Reads b (.negated sign x) := by
  intro s s' hyield
  obtain ⟨s₀, hsign, hyield⟩ := hyield
  rw [readFactor_eq, next_bind hsign, factorAfter, sign.2.1, sign.2.2]
  exact (hx s₀ s' hyield).bind fun v h => bind_of_ok h

theorem reads_signed (sign : d.Plain .plus) {x : Tree d .factor} (hx : Reads b x) :
    Reads b (.signed sign x) := by
  intro s s' hyield
  obtain ⟨s₀, hsign, hyield⟩ := hyield
  rw [readFactor_eq, next_bind hsign, factorAfter, sign.2.1, sign.2.2]
  exact hx s₀ s' hyield

theorem reads_number (t : d.Plain .number) : Reads b (.number t) := by
  intro s s' hyield
  obtain ⟨s₀, ht, rfl⟩ := hyield
  rw [readFactor_eq, next_bind ht, factorAfter, t.2.1, t.2.2]
  exact rfl

theorem reads_name (t : d.Plain .name) : Reads b (.name t) := by
  intro s s' hyield
  obtain ⟨s₀, ht, rfl⟩ := hyield
  rw [readFactor_eq, next_bind ht, factorAfter, t.2.1, t.2.2]
  exact comes_located _ _ _

/-! ## Every tree -/

/-- Reading the yield of any tree comes to its value. -/
theorem reads (hd : d.Closable) (b : Bindings) {tier : Tier} (T : Tree d tier) : Reads b T := by
  -- Induction on the tree, with a case for each rule of the grammar.
  induction T with
  | number t => exact reads_number t
  | name t => exact reads_name t
  | group opening inner closing paired ih => exact reads_group hd opening ih closing paired
  | bars enabled opening inner closing ih => exact reads_bars enabled opening ih closing
  | root word opening inner closing ih => exact reads_root word opening ih closing
  | negated sign x ih => exact reads_negated sign ih
  | signed sign x ih => exact reads_signed sign ih
  | factor x ih => exact reads_factor ih
  | factorial x mark ih => exact reads_factorial ih mark
  | raised x mark y ihx ihy => exact reads_raised ihx mark ihy
  | power x ih => exact reads_power ih
  | product x op sign y ihx ihy => exact reads_product ihx op sign ihy
  | term x ih => exact reads_term ih
  | sum x op sign y ihx ihy => exact reads_sum ihx op sign ihy

/-- The yield of an expression and a token that cannot extend it are read as the
    value of the expression, with the token in the slot. -/
theorem expression_of_yield (hd : d.Closable) (b : Bindings) (T : Tree d .expression)
    {s s' : Scanner} {t : Token} (h : s.Gives (T.yield ++ [t]) s') (hnot : ¬ T.CanExtend t) :
    Comes (expression d b s) (T.value b) fun x r => r = .ok x (s'.hold t) := by
  obtain ⟨s₁, hyield, ht⟩ := gives_append.1 h
  rw [gives_singleton] at ht
  exact (reads hd b T).expression_ends hyield ht hnot

end Calculator
