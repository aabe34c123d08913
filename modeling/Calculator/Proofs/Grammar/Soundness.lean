import Calculator.Proofs.Grammar.Completeness

/-! # What is read was derived by the grammar

    A reader that returns a value has read the yield of a tree with that value
    (`took_expression`), whatever the dialect. The converse of
    `expression_of_yield`.

    The proof is an induction on the budget. A tree grows while it is read: a
    sum or product that is being continued carries the tree of its value so
    far, and reading one more operand puts that tree under a new root. What is
    known about the scanner is kept up to a token that was put back.
-/

namespace Calculator

open CrossCheck (Tier SumOp ProductOp)
open Reading Scanner

variable {d : Dialect} {b : Bindings}

/-! ## Reading a tree -/

namespace Tree

/-- `r` is a state behind the tree, read from `s` on; the token behind the tree
    may have been put back in `r`. -/
def Behind {tier : Tier} (T : Tree d tier) (s r : Scanner) : Prop :=
  ∃ s₁, s.Gives T.yield s₁ ∧ r.get = s₁.get

/-- What the token behind a tree, in the state `r`, cannot do. An expression
    has looked at that token and put it back. -/
def StopsAt : {tier : Tier} → Tree d tier → Scanner → Prop
  | .factor, _, _ => True
  | .power, T, r => ∀ t s', r.get = (.ok t, s') → ¬ T.TakesPostfix t.kind
  | .term, T, r => ∀ t s', r.get = (.ok t, s') → ¬ T.TermTakes t.kind
  | .expression, T, r => ∃ t s', r.get = (.ok t, s') ∧ r = s'.hold t ∧ ¬ T.CanExtend t

/-- From `s` to `r` the tree was read, and its value is `v`. -/
structure Took (b : Bindings) {tier : Tier} (T : Tree d tier) (s : Scanner) (v : Float)
    (r : Scanner) : Prop where
  value : T.value b = .ok v
  behind : T.Behind s r
  stops : T.StopsAt r

variable {s s₁ s' r : Scanner} {t : Token}

/-- The next token behind a tree follows its yield. -/
theorem Behind.append {tier : Tier} {T : Tree d tier} (h : T.Behind s r)
    (ht : r.get = (.ok t, s')) : s.Gives (T.yield ++ [t]) s' := by
  obtain ⟨s₁, hyield, hget⟩ := h
  exact gives_append.2 ⟨s₁, hyield, gives_singleton.2 (hget ▸ ht)⟩

/-- A tree, a token and a tree behind it. -/
theorem Behind.append_cons {tier tier' : Tier} {T : Tree d tier} {U : Tree d tier'}
    (hT : T.Behind s r) (ht : r.get = (.ok t, s')) {r' : Scanner} (hU : U.Behind s' r') :
    ∃ s₁, s.Gives (T.yield ++ t :: U.yield) s₁ ∧ r'.get = s₁.get := by
  obtain ⟨s₁, hyield, hget⟩ := hT
  obtain ⟨s₂, hyield', hget'⟩ := hU
  exact ⟨s₂, gives_append.2 ⟨s₁, hyield, s', hget ▸ ht, hyield'⟩, hget'⟩

end Tree

/-! ## The readers -/

/-- What it means for the readers with budget `n` that they return a value. A
    continued sum or product has the tree of its value so far as a part. -/
structure WithinSound (d : Dialect) (b : Bindings) (n : Nat) : Prop where
  factor : ∀ {s v r}, factorWithin d b n s = .ok v r →
    ∃ T : Tree d .factor, T.Took b s v r
  power : ∀ {s v r}, powerWithin d b n s = .ok v r →
    ∃ T : Tree d .power, T.Took b s v r
  product : ∀ {s₀ s v r left} (X : Tree d .term), X.value b = .ok left → X.Behind s₀ s →
    (∀ t s', s.get = (.ok t, s') → ¬ X.TakesPostfix t.kind) →
    productWithin d b n left s = .ok v r → ∃ T : Tree d .term, T.Took b s₀ v r
  term : ∀ {s v r}, termWithin d b n s = .ok v r →
    ∃ T : Tree d .term, T.Took b s v r
  sum : ∀ {s₀ s v r left} (X : Tree d .expression), X.value b = .ok left → X.Behind s₀ s →
    (∀ t s', s.get = (.ok t, s') → ¬ X.TermTakes t.kind) →
    sumWithin d b n left s = .ok v r → ∃ T : Tree d .expression, T.Took b s₀ v r
  expression : ∀ {s v r}, expressionWithin d b n s = .ok v r →
    ∃ T : Tree d .expression, T.Took b s v r

namespace WithinSound

variable {n : Nat} {s s₀ s₁ r : Scanner} {v : Float} {t : Token}

/-! ### Factors -/

/-- A group that was read has an expression in it and its closing token. -/
theorem group (ih : WithinSound d b n) {closing : Token.Kind} {f : Float → Float}
    (h : groupRest (expressionWithin d b n) closing f s = .ok v r) :
    ∃ (T : Tree d .expression) (x : Float) (u : Token), T.value b = .ok x ∧ v = f x ∧
      u.kind = closing ∧ s.Gives (T.yield ++ [u]) r := by
  obtain ⟨x, s₁, hx, h⟩ := bind_eq_ok.1 h
  obtain ⟨_, s₂, hclosing, h⟩ := bind_eq_ok.1 h
  obtain ⟨-, u, hu, hk⟩ := expectClosing_eq_ok.1 hclosing
  obtain ⟨T, hT⟩ := ih.expression hx
  cases h
  exact ⟨T, x, u, hT.value, rfl, hk, hT.behind.append hu⟩

theorem took_group (ih : WithinSound d b n) {closing : Token.Kind}
    (ht : s.get = (.ok t, s₁)) (hc : d.closing? t = some closing)
    (h : groupRest (expressionWithin d b n) closing id s₁ = .ok v r) :
    ∃ T : Tree d .factor, T.Took b s v r := by
  obtain ⟨T, x, u, hx, rfl, rfl, hu⟩ := ih.group h
  exact ⟨.group t T u hc, hx, ⟨r, ⟨s₁, ht, hu⟩, rfl⟩, trivial⟩

theorem took_bars (ih : WithinSound d b n) (ht : s.get = (.ok t, s₁)) (hk : t.kind = .bar)
    (hc : d.closing? t = none) (hd : d.absoluteValue = true)
    (h : groupRest (expressionWithin d b n) .bar Float.abs s₁ = .ok v r) :
    ∃ T : Tree d .factor, T.Took b s v r := by
  obtain ⟨T, x, u, hx, rfl, hku, hu⟩ := ih.group h
  exact ⟨.bars hd ⟨t, hk, hc⟩ T ⟨u, hku⟩, Tree.value_bars hx, ⟨r, ⟨s₁, ht, hu⟩, rfl⟩, trivial⟩

theorem took_root (ih : WithinSound d b n) (ht : s.get = (.ok t, s₁))
    (hk : t.kind = .rootWord) (hc : d.closing? t = none)
    (h : rootRest (expressionWithin d b n) t s₁ = .ok v r) :
    ∃ T : Tree d .factor, T.Took b s v r := by
  obtain ⟨opening, s₂, hopening, h⟩ := bind_eq_ok.1 h
  obtain ⟨x, s₃, hx, h⟩ := bind_eq_ok.1 h
  obtain ⟨y, s₄, hy, h⟩ := bind_eq_ok.1 h
  obtain ⟨_, s₅, hclosing, h⟩ := bind_eq_ok.1 h
  cases h
  obtain ⟨hopening, hko⟩ := expect_eq_ok.1 hopening
  obtain ⟨hroot, rfl⟩ := located_eq_ok.1 hy
  obtain ⟨-, u, hu, hku⟩ := expectClosing_eq_ok.1 hclosing
  obtain ⟨T, hT⟩ := ih.expression hx
  exact ⟨.root ⟨t, hk, hc⟩ ⟨opening, hko⟩ T ⟨u, hku⟩, (Tree.value_root hT.value).trans hroot,
    ⟨r, ⟨s₁, ht, s₂, hopening, hT.behind.append hu⟩, rfl⟩, trivial⟩

theorem took_negated (ih : WithinSound d b n) (ht : s.get = (.ok t, s₁)) (hk : t.kind = .minus)
    (hc : d.closing? t = none)
    (h : (factorWithin d b n >>= fun x => (pure (-x) : Reading Float)) s₁ = .ok v r) :
    ∃ T : Tree d .factor, T.Took b s v r := by
  obtain ⟨x, s₂, hx, h⟩ := bind_eq_ok.1 h
  cases h
  obtain ⟨T, hT⟩ := ih.factor hx
  obtain ⟨s₃, hyield, hget⟩ := hT.behind
  exact ⟨.negated ⟨t, hk, hc⟩ T, Tree.value_negated hT.value, ⟨s₃, ⟨s₁, ht, hyield⟩, hget⟩,
    trivial⟩

theorem took_signed (ih : WithinSound d b n) (ht : s.get = (.ok t, s₁)) (hk : t.kind = .plus)
    (hc : d.closing? t = none) (h : factorWithin d b n s₁ = .ok v r) :
    ∃ T : Tree d .factor, T.Took b s v r := by
  obtain ⟨T, hT⟩ := ih.factor h
  obtain ⟨s₃, hyield, hget⟩ := hT.behind
  exact ⟨.signed ⟨t, hk, hc⟩ T, hT.value, ⟨s₃, ⟨s₁, ht, hyield⟩, hget⟩, trivial⟩

theorem factor_succ (ih : WithinSound d b n) (h : factorWithin d b (n + 1) s = .ok v r) :
    ∃ T : Tree d .factor, T.Took b s v r := by
  rw [factorWithin_succ] at h
  obtain ⟨t, s₁, ht, h⟩ := bind_eq_ok.1 h
  rw [next_eq_ok] at ht
  unfold factorAfter at h
  -- The first token decides which rule the factor was derived with.
  cases hc : d.closing? t with
  | some closing =>
    rw [hc] at h
    exact ih.took_group ht hc h
  | none =>
    rw [hc] at h
    cases hk : t.kind <;> rw [hk] at h
    case bar =>
      dsimp only at h
      split at h
      · next hd => exact ih.took_bars ht hk hc hd h
      · cases h
    case rootWord => exact ih.took_root ht hk hc h
    case minus => exact ih.took_negated ht hk hc h
    case plus => exact ih.took_signed ht hk hc h
    case number =>
      cases h
      exact ⟨.number ⟨t, hk, hc⟩, rfl, ⟨r, gives_singleton.2 ht, rfl⟩, trivial⟩
    case name =>
      obtain ⟨hv, rfl⟩ := located_eq_ok.1 h
      exact ⟨.name ⟨t, hk, hc⟩, hv, ⟨r, gives_singleton.2 ht, rfl⟩, trivial⟩
    all_goals cases h

/-! ### Powers -/

theorem power_succ (ih : WithinSound d b n) (h : powerWithin d b (n + 1) s = .ok v r) :
    ∃ T : Tree d .power, T.Took b s v r := by
  rw [powerWithin_succ] at h
  obtain ⟨x, s₁, hx, h⟩ := bind_eq_ok.1 h
  obtain ⟨t, s₂, ht, h⟩ := bind_eq_ok.1 h
  rw [next_eq_ok] at ht
  obtain ⟨T, hT⟩ := ih.factor hx
  by_cases hpost : t.kind.IsPostfix
  · rcases hpost with hk | hk
    · -- A factorial is complete with its mark.
      rw [powerAfter, hk] at h
      obtain ⟨hv, rfl⟩ := located_eq_ok.1 h
      refine ⟨.factorial T ⟨t, hk⟩, (Tree.value_factorial hT.value).trans hv,
        ⟨r, hT.behind.append ht, rfl⟩, ?_⟩
      rintro u s' - ⟨hclosed, -⟩
      cases hclosed
    · rw [powerAfter, hk] at h
      obtain ⟨y, s₃, hy, h⟩ := bind_eq_ok.1 h
      cases h
      obtain ⟨U, hU⟩ := ih.factor hy
      refine ⟨.raised T ⟨t, hk⟩ U, Tree.value_raised hT.value hU.value,
        hT.behind.append_cons ht hU.behind, ?_⟩
      rintro u s' - ⟨hclosed, -⟩
      cases hclosed
  · -- The token that was put back is no postfix operator.
    rw [powerAfter_of_other hpost, putBack_bind ht] at h
    cases h
    obtain ⟨s₃, hyield, hget⟩ := hT.behind
    refine ⟨.factor T, hT.value, ⟨s₃, hyield, ?_⟩, ?_⟩
    · rw [get_hold ht, ← hget, ht]
    · rintro u s' hu ⟨-, hp⟩
      rw [get_hold ht] at hu
      cases hu
      exact hpost hp

/-! ### Terms -/

theorem product_succ (ih : WithinSound d b n) {left : Float} (X : Tree d .term)
    (hX : X.value b = .ok left) (hbehind : X.Behind s₀ s)
    (hnot : ∀ t s', s.get = (.ok t, s') → ¬ X.TakesPostfix t.kind)
    (h : productWithin d b (n + 1) left s = .ok v r) :
    ∃ T : Tree d .term, T.Took b s₀ v r := by
  rw [productWithin_succ] at h
  obtain ⟨t, s₁, ht, h⟩ := bind_eq_ok.1 h
  rw [next_eq_ok] at ht
  by_cases hop : ∃ op : ProductOp, t.kind = op.kind
  · obtain ⟨op, hk⟩ := hop
    rw [productAfter_of_op hk] at h
    obtain ⟨y, s₂, hy, h⟩ := bind_eq_ok.1 h
    obtain ⟨z, s₃, hlocated, hmore⟩ := bind_eq_ok.1 h
    obtain ⟨hz, rfl⟩ := located_eq_ok.1 hlocated
    obtain ⟨Y, hY⟩ := ih.power hy
    -- The tree so far becomes the left operand.
    exact ih.product (.product X op ⟨t, hk⟩ Y) ((Tree.value_product hX hY.value).trans hz)
      (hbehind.append_cons ht hY.behind) hY.stops hmore
  · have hother : ∀ op : ProductOp, t.kind ≠ op.kind := fun op hk => hop ⟨op, hk⟩
    rw [productAfter_of_other hother, putBack_bind ht] at h
    cases h
    obtain ⟨s₂, hyield, hget⟩ := hbehind
    -- The term ends here: its last power takes no postfix operator, and there is no sign.
    refine ⟨X, hX, ⟨s₂, hyield, ?_⟩, ?_⟩
    · rw [get_hold ht, ← hget, ht]
    · rintro u s' hu (hp | hk)
      · rw [get_hold ht] at hu
        cases hu
        exact hnot t _ ht hp
      · rw [get_hold ht] at hu
        cases hu
        exact hop hk

theorem term_succ (ih : WithinSound d b n) (h : termWithin d b (n + 1) s = .ok v r) :
    ∃ T : Tree d .term, T.Took b s v r := by
  rw [termWithin_succ] at h
  obtain ⟨x, s₁, hx, h⟩ := bind_eq_ok.1 h
  obtain ⟨T, hT⟩ := ih.power hx
  exact ih.product (.power T) hT.value hT.behind hT.stops h

/-! ### Expressions -/

theorem sum_succ (ih : WithinSound d b n) {left : Float} (X : Tree d .expression)
    (hX : X.value b = .ok left) (hbehind : X.Behind s₀ s)
    (hnot : ∀ t s', s.get = (.ok t, s') → ¬ X.TermTakes t.kind)
    (h : sumWithin d b (n + 1) left s = .ok v r) :
    ∃ T : Tree d .expression, T.Took b s₀ v r := by
  rw [sumWithin_succ] at h
  obtain ⟨t, s₁, ht, h⟩ := bind_eq_ok.1 h
  rw [next_eq_ok] at ht
  by_cases hop : ∃ op : SumOp, t.kind = op.kind
  · obtain ⟨op, hk⟩ := hop
    rw [sumAfter_of_op hk] at h
    obtain ⟨y, s₂, hy, h⟩ := bind_eq_ok.1 h
    obtain ⟨Y, hY⟩ := ih.term hy
    -- Sums lean to the left as well.
    exact ih.sum (.sum X op ⟨t, hk⟩ Y) (Tree.value_sum hX hY.value)
      (hbehind.append_cons ht hY.behind) hY.stops h
  · have hother : ∀ op : SumOp, t.kind ≠ op.kind := fun op hk => hop ⟨op, hk⟩
    rw [sumAfter_of_other hother, putBack_bind ht] at h
    cases h
    obtain ⟨s₂, hyield, hget⟩ := hbehind
    refine ⟨X, hX, ⟨s₂, hyield, ?_⟩, t, s₁, get_hold ht, rfl, ?_⟩
    · rw [get_hold ht, ← hget, ht]
    · rintro (hp | hk)
      · exact hnot t s₁ ht hp
      · exact hop hk

theorem expression_succ (ih : WithinSound d b n)
    (h : expressionWithin d b (n + 1) s = .ok v r) :
    ∃ T : Tree d .expression, T.Took b s v r := by
  rw [expressionWithin_succ] at h
  obtain ⟨x, s₁, hx, h⟩ := bind_eq_ok.1 h
  obtain ⟨T, hT⟩ := ih.term hx
  exact ih.sum (.term T) hT.value hT.behind hT.stops h

end WithinSound

/-- The readers return a value only for the yield of a tree. -/
theorem withinSound (d : Dialect) (b : Bindings) (n : Nat) : WithinSound d b n := by
  -- Without a budget no reader returns a value.
  induction n with
  | zero => constructor <;> intros <;> contradiction
  | succ n ih =>
    exact ⟨ih.factor_succ, ih.power_succ, ih.product_succ, ih.term_succ, ih.sum_succ,
      ih.expression_succ⟩

/-- An expression that has a value was derived by the grammar: the tokens that
    were read are the yield of a tree with that value, and the token behind
    them, which cannot extend the tree, is in the slot. -/
theorem took_expression {s r : Scanner} {v : Float} (h : expression d b s = .ok v r) :
    ∃ T : Tree d .expression, T.Took b s v r :=
  (withinSound d b s.nestingBudget).expression h

end Calculator
