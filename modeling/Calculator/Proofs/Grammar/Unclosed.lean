import Calculator.Proofs.Dialect
import Calculator.Proofs.Grammar.Soundness

/-! # Groups that nothing closes

    A dialect may pair an opening bracket with a kind of token that is no
    closing bracket. Reading an expression is stopped by such a group only when
    the expression in it is complete and has a value (`expression_unclosable`).
    If every closing kind is a bracket, expressions are stopped by rejections
    alone (`Dialect.Closable.expression_error`).
-/

namespace Calculator

open CrossCheck (SumOp ProductOp)
open Reading Scanner

variable {d : Dialect} {b : Bindings}

/-! ## An unclosed group -/

/-- From `s` on, a group was opened that only a token of kind `k` would close,
    the expression in it was read, and `r` is the state behind it, with the next
    token in the slot. -/
def Unclosed (d : Dialect) (b : Bindings) (s : Scanner) (k : Token.Kind) (r : Scanner) : Prop :=
  ∃ (before : List Token) (opening : Token) (T : Tree d .expression) (v : Float) (t : Token)
    (s' : Scanner),
    s.Gives (before ++ opening :: (T.yield ++ [t])) s' ∧ r = s'.hold t ∧
      d.closing? opening = some k ∧ k.closingBracket? = none ∧
      T.value b = .ok v ∧ ¬ T.CanExtend t

namespace Unclosed

variable {s s₁ r : Scanner} {k : Token.Kind} {t : Token}

/-- Only the tokens that come next matter. -/
theorem of_get_eq (h : Unclosed d b s₁ k r) (hget : s.get = s₁.get) : Unclosed d b s k r := by
  obtain ⟨before, opening, T, v, t, s', hgives, hrest⟩ := h
  exact ⟨before, opening, T, v, t, s', hgives.of_get_eq (by simp) hget, hrest⟩

/-- There may be other tokens in front of the group. -/
theorem of_gives {ts : List Token} (hts : s.Gives ts s₁) (h : Unclosed d b s₁ k r) :
    Unclosed d b s k r := by
  obtain ⟨before, opening, T, v, t, s', hgives, hrest⟩ := h
  refine ⟨ts ++ before, opening, T, v, t, s', ?_, hrest⟩
  rw [List.append_assoc]
  exact gives_append.2 ⟨s₁, hts, hgives⟩

/-- Where every group can be closed there is none. -/
theorem not_closable (h : Unclosed d b s k r) : ¬ d.Closable := by
  obtain ⟨-, opening, -, -, -, -, -, -, hopening, hk, -⟩ := h
  intro hd
  have hsome := hd _ _ hopening
  rw [hk] at hsome
  cases hsome

theorem of_get (ht : s.get = (.ok t, s₁)) (h : Unclosed d b s₁ k r) : Unclosed d b s k r :=
  of_gives (gives_singleton.2 ht) h

/-- There may be a tree in front of the group. -/
theorem of_behind {tier : CrossCheck.Tier} {T : Tree d tier} (hT : T.Behind s s₁)
    (h : Unclosed d b s₁ k r) : Unclosed d b s k r := by
  obtain ⟨s₂, hyield, hget⟩ := hT
  exact of_gives hyield (h.of_get_eq hget.symm)

end Unclosed

/-! ## Single tokens -/

section single
variable {s r : Scanner} {k : Token.Kind} {t : Token}

theorem next_ne_unclosable : next s ≠ .error (.unclosable k) r := by
  unfold next
  split <;> simp

theorem located_ne_unclosable {v : Except Cause Float} :
    located t v s ≠ .error (.unclosable k) r := by
  cases v <;> simp [located, rejectAt, pure, EStateM.pure]

theorem putBack_pure_ne_unclosable {x : Float} :
    (Reading.putBack t >>= fun _ => (pure x : Reading Float)) s ≠ .error (.unclosable k) r := by
  intro h
  obtain ⟨_, h⟩ := putBack_pure_eq_error h
  cases h

theorem expect_ne_unclosable {kind : Token.Kind} {cause : Cause} :
    expect kind cause s ≠ .error (.unclosable k) r := by
  intro h
  obtain h | ⟨u, s₁, -, h⟩ := bind_eq_error.1 h
  · exact next_ne_unclosable h
  · split at h <;> cases h

/-- Only a kind without a bracket cannot be asked for. -/
theorem expectClosing_unclosable {kind : Token.Kind}
    (h : expectClosing kind s = .error (.unclosable k) r) :
    kind = k ∧ k.closingBracket? = none ∧ r = s := by
  unfold expectClosing at h
  cases hb : kind.closingBracket? with
  | none =>
    rw [hb] at h
    cases h
    exact ⟨rfl, hb, rfl⟩
  | some bracket =>
    rw [hb] at h
    obtain h | ⟨u, s₁, -, h⟩ := bind_eq_error.1 h
    · exact absurd h expect_ne_unclosable
    · cases h

end single

/-! ## The readers -/

/-- The readers with budget `n` are stopped by unclosed groups as they should
    be. -/
structure WithinUnclosed (d : Dialect) (b : Bindings) (n : Nat) : Prop where
  factor : ∀ {s k r}, factorWithin d b n s = .error (.unclosable k) r → Unclosed d b s k r
  power : ∀ {s k r}, powerWithin d b n s = .error (.unclosable k) r → Unclosed d b s k r
  product : ∀ left {s k r}, productWithin d b n left s = .error (.unclosable k) r →
    Unclosed d b s k r
  term : ∀ {s k r}, termWithin d b n s = .error (.unclosable k) r → Unclosed d b s k r
  sum : ∀ left {s k r}, sumWithin d b n left s = .error (.unclosable k) r → Unclosed d b s k r
  expression : ∀ {s k r}, expressionWithin d b n s = .error (.unclosable k) r →
    Unclosed d b s k r

namespace WithinUnclosed

variable {n : Nat} {s s₁ r : Scanner} {k : Token.Kind} {t : Token}

/-- A group is stopped inside, or it is the one that cannot be closed. -/
theorem group (ih : WithinUnclosed d b n) {closing : Token.Kind} {f : Float → Float}
    (h : groupRest (expressionWithin d b n) closing f s = .error (.unclosable k) r) :
    Unclosed d b s k r ∨
      ∃ (T : Tree d .expression) (v : Float), T.Took b s v r ∧ closing = k ∧
        k.closingBracket? = none := by
  obtain h | ⟨v, s₁, hv, h⟩ := bind_eq_error.1 h
  · exact .inl (ih.expression h)
  · obtain h | ⟨_, s₂, -, h⟩ := bind_eq_error.1 h
    · obtain ⟨hk, hb, rfl⟩ := expectClosing_unclosable h
      obtain ⟨T, hT⟩ := (withinSound d b n).expression hv
      exact .inr ⟨T, v, hT, hk, hb⟩
    · cases h

/-- The closing kinds that the readers fix themselves are brackets. -/
theorem group_of_bracket (ih : WithinUnclosed d b n) {closing : Token.Kind} {f : Float → Float}
    (hclosing : closing.closingBracket?.isSome)
    (h : groupRest (expressionWithin d b n) closing f s = .error (.unclosable k) r) :
    Unclosed d b s k r := by
  obtain h | ⟨T, v, -, rfl, hb⟩ := ih.group h
  · exact h
  · rw [hb] at hclosing
    cases hclosing

theorem root (ih : WithinUnclosed d b n)
    (h : rootRest (expressionWithin d b n) t s = .error (.unclosable k) r) :
    Unclosed d b s k r := by
  obtain h | ⟨u, s₁, hopening, h⟩ := bind_eq_error.1 h
  · exact absurd h expect_ne_unclosable
  · obtain ⟨hopening, -⟩ := expect_eq_ok.1 hopening
    obtain h | ⟨x, s₂, -, h⟩ := bind_eq_error.1 h
    · exact (ih.expression h).of_get hopening
    · obtain h | ⟨y, s₃, -, h⟩ := bind_eq_error.1 h
      · exact absurd h located_ne_unclosable
      · obtain h | ⟨_, s₄, -, h⟩ := bind_eq_error.1 h
        · obtain ⟨rfl, hb, -⟩ := expectClosing_unclosable h
          cases hb
        · cases h

theorem factorAfter (ih : WithinUnclosed d b n) (ht : s.get = (.ok t, s₁))
    (h : Calculator.factorAfter d b (expressionWithin d b n) (factorWithin d b n) t s₁ =
      .error (.unclosable k) r) : Unclosed d b s k r := by
  unfold Calculator.factorAfter at h
  cases hc : d.closing? t with
  | some closing =>
    rw [hc] at h
    obtain h | ⟨T, v, hT, rfl, hb⟩ := ih.group h
    · exact h.of_get ht
    · -- This is the group that nothing closes, and its expression has been read.
      obtain ⟨u, s', hu, hhold, hnot⟩ := hT.stops
      exact ⟨[], t, T, v, u, s', ⟨s₁, ht, hT.behind.append hu⟩, hhold, hc, hb, hT.value, hnot⟩
  | none =>
    rw [hc] at h
    cases hk : t.kind <;> rw [hk] at h
    case bar =>
      dsimp only at h
      split at h
      · exact (ih.group_of_bracket rfl h).of_get ht
      · cases h
    case rootWord => exact (ih.root h).of_get ht
    case minus =>
      obtain h | ⟨x, s₂, -, h⟩ := bind_eq_error.1 h
      · exact (ih.factor h).of_get ht
      · cases h
    case plus => exact (ih.factor h).of_get ht
    case name => exact absurd h located_ne_unclosable
    all_goals cases h

theorem factor_succ (ih : WithinUnclosed d b n)
    (h : factorWithin d b (n + 1) s = .error (.unclosable k) r) : Unclosed d b s k r := by
  rw [factorWithin_succ] at h
  obtain h | ⟨t, s₁, ht, h⟩ := bind_eq_error.1 h
  · exact absurd h next_ne_unclosable
  · exact ih.factorAfter (next_eq_ok.1 ht) h

theorem power_succ (ih : WithinUnclosed d b n)
    (h : powerWithin d b (n + 1) s = .error (.unclosable k) r) : Unclosed d b s k r := by
  rw [powerWithin_succ] at h
  obtain h | ⟨x, s₁, hx, h⟩ := bind_eq_error.1 h
  · exact ih.factor h
  · obtain ⟨T, hT⟩ := (withinSound d b n).factor hx
    obtain h | ⟨t, s₂, ht, h⟩ := bind_eq_error.1 h
    · exact absurd h next_ne_unclosable
    · refine Unclosed.of_behind hT.behind (Unclosed.of_get (next_eq_ok.1 ht) ?_)
      by_cases hpost : t.kind.IsPostfix
      · unfold powerAfter at h
        rcases hpost with hk | hk <;> rw [hk] at h
        · exact absurd h located_ne_unclosable
        · obtain h | ⟨y, s₃, -, h⟩ := bind_eq_error.1 h
          · exact ih.factor h
          · cases h
      · rw [powerAfter_of_other hpost] at h
        exact absurd h putBack_pure_ne_unclosable

theorem product_succ (ih : WithinUnclosed d b n) (left : Float)
    (h : productWithin d b (n + 1) left s = .error (.unclosable k) r) : Unclosed d b s k r := by
  rw [productWithin_succ] at h
  obtain h | ⟨t, s₁, ht, h⟩ := bind_eq_error.1 h
  · exact absurd h next_ne_unclosable
  · refine Unclosed.of_get (next_eq_ok.1 ht) ?_
    by_cases hop : ∃ op : ProductOp, t.kind = op.kind
    · obtain ⟨op, hk⟩ := hop
      rw [productAfter_of_op hk] at h
      obtain h | ⟨y, s₂, hy, h⟩ := bind_eq_error.1 h
      · exact ih.power h
      · -- The operand is a tree, and the group is somewhere behind it.
        obtain ⟨T, hT⟩ := (withinSound d b n).power hy
        refine Unclosed.of_behind hT.behind ?_
        obtain h | ⟨z, s₃, hz, hmore⟩ := bind_eq_error.1 h
        · exact absurd h located_ne_unclosable
        · obtain ⟨-, rfl⟩ := located_eq_ok.1 hz
          exact ih.product z hmore
    · rw [productAfter_of_other fun op hk => hop ⟨op, hk⟩] at h
      exact absurd h putBack_pure_ne_unclosable

theorem term_succ (ih : WithinUnclosed d b n)
    (h : termWithin d b (n + 1) s = .error (.unclosable k) r) : Unclosed d b s k r := by
  rw [termWithin_succ] at h
  obtain h | ⟨x, s₁, hx, h⟩ := bind_eq_error.1 h
  · exact ih.power h
  · obtain ⟨T, hT⟩ := (withinSound d b n).power hx
    exact Unclosed.of_behind hT.behind (ih.product x h)

theorem sum_succ (ih : WithinUnclosed d b n) (left : Float)
    (h : sumWithin d b (n + 1) left s = .error (.unclosable k) r) : Unclosed d b s k r := by
  rw [sumWithin_succ] at h
  obtain h | ⟨t, s₁, ht, h⟩ := bind_eq_error.1 h
  · exact absurd h next_ne_unclosable
  · refine Unclosed.of_get (next_eq_ok.1 ht) ?_
    by_cases hop : ∃ op : SumOp, t.kind = op.kind
    · obtain ⟨op, hk⟩ := hop
      rw [sumAfter_of_op hk] at h
      obtain h | ⟨y, s₂, hy, h⟩ := bind_eq_error.1 h
      · exact ih.term h
      · obtain ⟨T, hT⟩ := (withinSound d b n).term hy
        exact Unclosed.of_behind hT.behind (ih.sum _ h)
    · rw [sumAfter_of_other fun op hk => hop ⟨op, hk⟩] at h
      exact absurd h putBack_pure_ne_unclosable

theorem expression_succ (ih : WithinUnclosed d b n)
    (h : expressionWithin d b (n + 1) s = .error (.unclosable k) r) : Unclosed d b s k r := by
  rw [expressionWithin_succ] at h
  obtain h | ⟨x, s₁, hx, h⟩ := bind_eq_error.1 h
  · exact ih.term h
  · obtain ⟨T, hT⟩ := (withinSound d b n).term hx
    exact Unclosed.of_behind hT.behind (ih.sum x h)

end WithinUnclosed

theorem withinUnclosed (d : Dialect) (b : Bindings) (n : Nat) : WithinUnclosed d b n := by
  -- Without a budget the fault is another one.
  induction n with
  | zero => constructor <;> intros <;> rename_i h <;> cases h
  | succ n ih =>
    exact ⟨ih.factor_succ, ih.power_succ, fun left _ _ _ => ih.product_succ left,
      ih.term_succ, fun left _ _ _ => ih.sum_succ left, ih.expression_succ⟩

/-! ## Expressions -/

/-- An expression is stopped without a rejection only behind a complete
    expression in a group that nothing closes. -/
theorem expression_unclosable {s r : Scanner} {k : Token.Kind}
    (h : expression d b s = .error (.unclosable k) r) : Unclosed d b s k r :=
  (withinUnclosed d b s.nestingBudget).expression h

/-- If every group can be closed, an expression is stopped by rejections alone. -/
theorem Dialect.Closable.expression_error (hd : d.Closable) {s r : Scanner} {e : Fault}
    (h : expression d b s = .error e r) : ∃ cause, e = .rejected cause := by
  have hinternal := expression_fault_not_internal h
  cases e with
  | rejected cause => exact ⟨cause, rfl⟩
  | unclosable k => exact absurd hd (expression_unclosable h).not_closable
  | slotOccupied _ _ | budgetExhausted => cases hinternal

end Calculator
