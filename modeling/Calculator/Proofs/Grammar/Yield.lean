import Calculator.Proofs.Dialect
import Calculator.Proofs.Grammar.Tree

/-! # The tokens of an expression

    In a dialect that groups with some of the brackets of the full one, the
    tokens of an expression are numbers, names, operators, brackets, bars and
    the word for the square root. None of them ends a statement or begins a
    clause (`Tree.inExpression_of_mem`). All names in an expression that has a
    value are declared (`Tree.declared_of_value`).
-/

namespace Calculator

open CrossCheck (Tier SumOp ProductOp)

/-- Whether tokens of this kind occur in expressions. -/
def Token.Kind.inExpression : Token.Kind → Bool
  | .terminator | .quit | .equals | .comma | .letWord | .constWord | .setWord => false
  | _ => true

/-- Brackets that group are brackets of the full dialect. -/
theorem Dialect.GroupsWithin.inExpression {d : Dialect} (hd : d.GroupsWithin .full) {t : Token}
    {k : Token.Kind} (h : d.closing? t = some k) :
    t.kind.inExpression ∧ k.inExpression ∧ t.kind ≠ .name ∧ k ≠ .name := by
  obtain ⟨ht, rfl⟩ | ⟨ht, rfl⟩ | ⟨ht, rfl⟩ :=
    lookup_full (hd _ _ (lookup_of_closing? h)) <;> rw [ht] <;> decide

namespace Tree

variable {d : Dialect} {b : Bindings}

/-- A tree derives at least one token. -/
theorem yield_ne_nil {tier : Tier} (T : Tree d tier) : T.yield ≠ [] := by
  induction T with
  | factor x ih | power x ih | term x ih => exact ih
  | number | name | group | bars | root | negated | signed => simp [yield]
  | factorial | raised | product | sum => simp [yield]

theorem inExpression_of_mem (hd : d.GroupsWithin .full) {tier : Tier} (T : Tree d tier) :
    ∀ t ∈ T.yield, t.kind.inExpression := by
  have hproduct (op : ProductOp) : op.kind.inExpression := by cases op <;> rfl
  have hsum (op : SumOp) : op.kind.inExpression := by cases op <;> rfl
  -- Every rule adds tokens of kinds that it fixes to the tokens of its parts.
  induction T with
  | number t => simp [yield, t.2.1, Token.Kind.inExpression]
  | name t => simp [yield, t.2.1, Token.Kind.inExpression]
  | group opening inner closing paired ih =>
    obtain ⟨hopening, hclosing, -⟩ := hd.inExpression paired
    simpa [yield, hopening, hclosing, or_imp, forall_and] using ih
  | bars enabled opening inner closing ih =>
    simpa [yield, opening.2.1, closing.2, Token.Kind.inExpression, or_imp, forall_and] using ih
  | root word opening inner closing ih =>
    simpa [yield, word.2.1, opening.2, closing.2, Token.Kind.inExpression, or_imp,
      forall_and] using ih
  | negated sign x ih | signed sign x ih =>
    simpa [yield, sign.2.1, Token.Kind.inExpression] using ih
  | factor x ih | power x ih | term x ih => exact ih
  | factorial x mark ih =>
    simpa [yield, mark.2, Token.Kind.inExpression, or_imp, forall_and] using ih
  | raised x mark y ihx ihy =>
    simpa [yield, mark.2, Token.Kind.inExpression, or_imp, forall_and] using ⟨ihx, ihy⟩
  | product x op sign y ihx ihy =>
    simpa [yield, sign.2, hproduct, or_imp, forall_and] using ⟨ihx, ihy⟩
  | sum x op sign y ihx ihy =>
    simpa [yield, sign.2, hsum, or_imp, forall_and] using ⟨ihx, ihy⟩

/-- A sequence of evaluations has a value only if its first part has one. -/
theorem bind_eq_ok {α β : Type} {x : Except Cause α} {f : α → Except Cause β} {v : β} :
    x >>= f = .ok v ↔ ∃ a, x = .ok a ∧ f a = .ok v := by
  cases x with
  | error cause => exact ⟨nofun, fun ⟨_, h, _⟩ => nomatch h⟩
  | ok a => exact ⟨fun h => ⟨a, rfl, h⟩, fun ⟨_, h, hf⟩ => by cases h; exact hf⟩

/-- All names in an expression with a value are declared: the whole expression
    is evaluated before it has one. -/
theorem declared_of_value (hd : d.GroupsWithin .full) {tier : Tier} (T : Tree d tier) {v : Float}
    (h : T.value b = .ok v) : ∀ t ∈ T.yield, t.kind = .name → (b.find? t.lexeme).isSome := by
  have hproduct (op : ProductOp) : op.kind ≠ .name := by cases op <;> decide
  have hsum (op : SumOp) : op.kind ≠ .name := by cases op <;> decide
  induction T generalizing v with
  | number t => simp [yield, t.2.1]
  | name t =>
    intro u hu _
    rw [List.mem_singleton.1 hu]
    unfold value Bindings.get at h
    cases hfind : b.find? t.val.lexeme with
    | none => rw [hfind] at h; cases h
    | some w => rfl
  | group opening inner closing paired ih =>
    obtain ⟨-, -, hopening, hclosing⟩ := hd.inExpression paired
    simpa [yield, hopening, hclosing, or_imp, forall_and] using ih h
  | bars enabled opening inner closing ih =>
    obtain ⟨x, hx, -⟩ := bind_eq_ok.1 h
    simpa [yield, opening.2.1, closing.2, or_imp, forall_and] using ih hx
  | root word opening inner closing ih =>
    obtain ⟨x, hx, -⟩ := bind_eq_ok.1 h
    simpa [yield, word.2.1, opening.2, closing.2, or_imp, forall_and] using ih hx
  | negated sign x ih =>
    obtain ⟨y, hy, -⟩ := bind_eq_ok.1 h
    simpa [yield, sign.2.1] using ih hy
  | signed sign x ih => simpa [yield, sign.2.1] using ih h
  | factor x ih | power x ih | term x ih => exact ih h
  | factorial x mark ih =>
    obtain ⟨y, hy, -⟩ := bind_eq_ok.1 h
    simpa [yield, mark.2, or_imp, forall_and] using ih hy
  | raised x mark y ihx ihy =>
    obtain ⟨p, hp, h⟩ := bind_eq_ok.1 h
    obtain ⟨q, hq, -⟩ := bind_eq_ok.1 h
    simpa [yield, mark.2, or_imp, forall_and] using ⟨ihx hp, ihy hq⟩
  | product x op sign y ihx ihy =>
    obtain ⟨p, hp, h⟩ := bind_eq_ok.1 h
    obtain ⟨q, hq, -⟩ := bind_eq_ok.1 h
    simpa [yield, sign.2, hproduct, or_imp, forall_and] using ⟨ihx hp, ihy hq⟩
  | sum x op sign y ihx ihy =>
    obtain ⟨p, hp, h⟩ := bind_eq_ok.1 h
    obtain ⟨q, hq, -⟩ := bind_eq_ok.1 h
    simpa [yield, sign.2, hsum, or_imp, forall_and] using ⟨ihx hp, ihy hq⟩

end Tree

end Calculator
