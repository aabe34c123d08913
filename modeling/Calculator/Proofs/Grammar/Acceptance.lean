import Calculator.Proofs.Grammar.Soundness

/-! # The grammar is what is accepted

    For every dialect that groups with some of the brackets of the full one:
    the expressions that have a value are exactly the yields of trees with that
    value, read as far as they can be, and a tree without a value is rejected
    for its first error (`expression_accepts_grammar`).

    The tokens that cannot follow an expression without extending it are given
    by `Tree.CanExtend`. Each of them does begin an extension
    (`exists_extension_of_canExtend`), so the grammar leaves no other choice
    than to read on there.
-/

namespace Calculator

open CrossCheck (Tier SumOp ProductOp)
open Scanner

/-! ## Extensions -/

namespace Tree

variable {d : Dialect}

/-- A factor of one token, for want of anything better. -/
def one (hd : d.GroupsWithin .full) : Tree d .factor :=
  .number ⟨{ kind := .number, lexeme := "1", value := 1 }, rfl, hd.closing?_eq_none rfl⟩

/-- The tree, with the token behind it and some more, is the yield of another
    tree of the same tier. -/
def Extends {tier : Tier} (T : Tree d tier) (t : Token) : Prop :=
  ∃ (U : Tree d tier) (ts : List Token), U.yield = T.yield ++ t :: ts

/-- The last power of a tree takes a postfix operator if it has none. A factor
    stands for the power that it is. -/
theorem extends_of_takesPostfix (hd : d.GroupsWithin .full) {tier : Tier} (T : Tree d tier)
    (htier : tier ≠ .factor) {t : Token} (h : T.TakesPostfix t.kind) : T.Extends t := by
  induction T with
  | number | name | group | bars | root | negated | signed => exact absurd rfl htier
  | factor x =>
    rcases h.2 with hk | hk
    · exact ⟨.factorial x ⟨t, hk⟩, [], rfl⟩
    · exact ⟨.raised x ⟨t, hk⟩ (one hd), (one hd).yield, rfl⟩
  | factorial x mark => exact absurd h.1 (by simp [closed])
  | raised x mark y => exact absurd h.1 (by simp [closed])
  | power x ih =>
    obtain ⟨U, ts, hU⟩ := ih (by decide) h
    exact ⟨.power U, ts, hU⟩
  | term x ih =>
    obtain ⟨U, ts, hU⟩ := ih (by decide) h
    exact ⟨.term U, ts, hU⟩
  | product x op sign y _ ih =>
    obtain ⟨U, ts, hU⟩ := ih (by decide) h
    exact ⟨.product x op sign U, ts, by simp [yield, hU]⟩
  | sum x op sign y _ ih =>
    obtain ⟨U, ts, hU⟩ := ih (by decide) h
    exact ⟨.sum x op sign U, ts, by simp [yield, hU]⟩

/-- A term takes an operator of a product as well, and so does the last term of
    an expression. -/
theorem extends_of_productOp (hd : d.GroupsWithin .full) (T : Tree d .expression) {t : Token}
    {op : ProductOp} (h : t.kind = op.kind) : T.Extends t := by
  cases T with
  | term x =>
    exact ⟨.term (.product x op ⟨t, h⟩ (.factor (one hd))), (one hd).yield, rfl⟩
  | sum x op' sign y =>
    exact ⟨.sum x op' sign (.product y op ⟨t, h⟩ (.factor (one hd))), (one hd).yield, by
      simp [yield]⟩

/-- Every token that can extend an expression does so, with the right tokens
    behind it. -/
theorem exists_extension_of_canExtend (hd : d.GroupsWithin .full) (T : Tree d .expression)
    {t : Token} (h : T.CanExtend t) : T.Extends t := by
  rcases h with (hpost | ⟨op, hop⟩) | ⟨op, hop⟩
  · exact extends_of_takesPostfix hd T (by decide) hpost
  · exact extends_of_productOp hd T hop
  · exact ⟨.sum T op ⟨t, hop⟩ (.power (.factor (one hd))), (one hd).yield, rfl⟩

end Tree

/-! ## Acceptance -/

/-- Reading an expression accepts the grammar and computes the value of the
    tree. Tokens that are the yield of a tree, with one behind them that cannot
    extend it, are read as the value of the tree, or rejected for its first
    error. Whatever is read as a value is the yield of a tree with that value,
    and the token behind it, which cannot extend it, waits in the slot. -/
theorem expression_accepts_grammar {d : Dialect} (hd : d.GroupsWithin .full) (b : Bindings)
    (s : Scanner) :
    (∀ (T : Tree d .expression) (t : Token) (s' : Scanner), s.Gives (T.yield ++ [t]) s' →
      ¬ T.CanExtend t →
        (∀ v, T.value b = .ok v → expression d b s = .ok v (s'.hold t)) ∧
        ∀ cause, T.value b = .error cause →
          ∃ place s₁, expression d b s = .error (.rejected ⟨cause, place⟩) s₁) ∧
    ∀ v r, expression d b s = .ok v r →
      ∃ (T : Tree d .expression) (t : Token) (s' : Scanner), s.Gives (T.yield ++ [t]) s' ∧
        ¬ T.CanExtend t ∧ T.value b = .ok v ∧ r = s'.hold t := by
  constructor
  · -- what the grammar derives is read
    intro T t s' hyield hnot
    have hcomes := expression_of_yield hd.closable b T hyield hnot
    constructor
    · intro v hv
      rw [hv] at hcomes
      exact hcomes
    · intro cause hv
      rw [hv] at hcomes
      exact hcomes
  · -- what is read was derived
    intro v r hr
    obtain ⟨T, hT⟩ := took_expression hr
    obtain ⟨t, s', ht, hold, hnot⟩ := hT.stops
    exact ⟨T, t, s', hT.behind.append ht, hnot, hT.value, hold⟩

/-- In the classic dialect `(1+2)*3;` is read as a tree with the value nine. -/
theorem expression_accepts_grammar_classic :
    Dialect.classic.GroupsWithin .full ∧
      ∃ (T : Tree .classic .expression) (t : Token) (s' : Scanner),
        (ofText Dialect.classic.keywords "(1+2)*3;".toList).Gives (T.yield ++ [t]) s' ∧
          ¬ T.CanExtend t ∧ T.value .initial = .ok 9 := by
  refine ⟨Dialect.classic_groupsWithin_full, ?_⟩
  have hnine : (match expression .classic .initial
      (ofText Dialect.classic.keywords "(1+2)*3;".toList) with
    | .ok v _ => some v
    | .error _ _ => none) = some 9 := by decide +kernel
  split at hnine
  · next v r hr =>
    cases hnine
    obtain ⟨T, t, s', hyield, hnot, hv, -⟩ :=
      (expression_accepts_grammar Dialect.classic_groupsWithin_full .initial _).2 _ _ hr
    exact ⟨T, t, s', hyield, hnot, hv⟩
  · cases hnine

end Calculator
