import Calculator.Proofs.Grammar.Soundness
import Calculator.Proofs.Grammar.Yield

/-! # Offences

    An expression is rejected for its first error in the order of reading. The
    tokens up to it have a derivation of their own (`Offence`): trees where the
    expression has been read and has a value, and one token to blame. That token
    cannot stand where it does, or it is a name, a word or an operator without a
    value.
-/

namespace Calculator

open CrossCheck (Tier SumOp ProductOp)

/-! ## Offences -/

/-- The token opens a group that a token of kind `k` closes: brackets of the
    dialect, or bars in a dialect that has the absolute value. -/
def Dialect.Opens (d : Dialect) (t : Token) (k : Token.Kind) : Prop :=
  d.closing? t = some k ∨
    d.closing? t = none ∧ t.kind = .bar ∧ d.absoluteValue = true ∧ k = .bar

/-- A token of this kind begins a factor if it opens no group. -/
def Token.Kind.beginsFactor (k : Token.Kind) : Bool :=
  k = .rootWord || k = .minus || k = .plus || k = .number || k = .name

/-- The tokens `ts` are read for the tier, and in the end the token `t` among
    them is to blame for an error. Trees in front of the error have values. -/
inductive Offence (d : Dialect) (b : Bindings) : Tier → List Token → Token → Cause → Prop where
  /-- A factor is due, and the token begins none. -/
  | factor {t : Token} (not_opens : ∀ k, ¬ d.Opens t k) (other : t.kind.beginsFactor = false) :
    Offence d b .factor [t] t .missingFactor
  | name (t : d.Plain .name) (undefined : b.find? t.val.lexeme = none) :
    Offence d b .factor [t.val] t.val (.undefinedName t.val.lexeme)
  | group {opening t : Token} {k : Token.Kind} {ts : List Token} {cause : Cause}
      (opens : d.Opens opening k) (inner : Offence d b .expression ts t cause) :
    Offence d b .factor (opening :: ts) t cause
  /-- The expression in the group is complete, and the token does not close it. -/
  | closing {opening t : Token} {k : Token.Kind} {bracket : Char} {T : Tree d .expression}
      {v : Float} (opens : d.Opens opening k) (value : T.value b = .ok v) (other : t.kind ≠ k)
      (bracket_eq : k.closingBracket? = some bracket) :
    Offence d b .factor (opening :: (T.yield ++ [t])) t (.missingClosing bracket)
  | argument (word : d.Plain .rootWord) {t : Token} (other : t.kind ≠ .openParen) :
    Offence d b .factor [word.val, t] t .missingRootArgument
  | radicand (word : d.Plain .rootWord) (opening : Token.Of .openParen) {t : Token}
      {ts : List Token} {cause : Cause} (inner : Offence d b .expression ts t cause) :
    Offence d b .factor (word.val :: opening.val :: ts) t cause
  /-- The root of a negative number is blamed on the word for the root. -/
  | root (word : d.Plain .rootWord) (opening : Token.Of .openParen) {T : Tree d .expression}
      {x : Float} (value : T.value b = .ok x) (negative : x < 0) :
    Offence d b .factor (word.val :: opening.val :: T.yield) word.val (.negativeRoot x)
  | rootClosing (word : d.Plain .rootWord) (opening : Token.Of .openParen)
      {T : Tree d .expression} {x : Float} {t : Token} (value : T.value b = .ok x)
      (root : ¬ x < 0) (other : t.kind ≠ .closeParen) :
    Offence d b .factor (word.val :: opening.val :: (T.yield ++ [t])) t (.missingClosing ')')
  | signed {sign t : Token} {ts : List Token} {cause : Cause} (plain : d.closing? sign = none)
      (sign_kind : sign.kind = .minus ∨ sign.kind = .plus)
      (inner : Offence d b .factor ts t cause) :
    Offence d b .factor (sign :: ts) t cause
  | base {t : Token} {ts : List Token} {cause : Cause} (inner : Offence d b .factor ts t cause) :
    Offence d b .power ts t cause
  /-- A factorial without a value is blamed on its mark. -/
  | factorial {x : Tree d .factor} {v : Float} (mark : Token.Of .bang) {cause : Cause}
      (value : x.value b = .ok v) (domain : Calculator.factorial v = .error cause) :
    Offence d b .power (x.yield ++ [mark.val]) mark.val cause
  | exponent {x : Tree d .factor} {v : Float} (mark : Token.Of .caret) {t : Token}
      {ts : List Token} {cause : Cause} (value : x.value b = .ok v)
      (inner : Offence d b .factor ts t cause) :
    Offence d b .power (x.yield ++ mark.val :: ts) t cause
  | power {t : Token} {ts : List Token} {cause : Cause} (inner : Offence d b .power ts t cause) :
    Offence d b .term ts t cause
  | operand {x : Tree d .term} {v : Float} (op : ProductOp) (sign : Token.Of op.kind) {t : Token}
      {ts : List Token} {cause : Cause} (value : x.value b = .ok v)
      (inner : Offence d b .power ts t cause) :
    Offence d b .term (x.yield ++ sign.val :: ts) t cause
  /-- A zero divisor is blamed on the operator in front of it. -/
  | divisor {x : Tree d .term} {y : Tree d .power} {v w : Float} (op : ProductOp)
      (sign : Token.Of op.kind) {cause : Cause} (value : x.value b = .ok v)
      (divisor : y.value b = .ok w) (zero : (w == 0) = true)
      (operation : op = .div ∧ cause = .divisionByZero ∨ op = .mod ∧ cause = .moduloByZero) :
    Offence d b .term (x.yield ++ sign.val :: y.yield) sign.val cause
  | term {t : Token} {ts : List Token} {cause : Cause} (inner : Offence d b .term ts t cause) :
    Offence d b .expression ts t cause
  | addend {x : Tree d .expression} {v : Float} (op : SumOp) (sign : Token.Of op.kind)
      {t : Token} {ts : List Token} {cause : Cause} (value : x.value b = .ok v)
      (inner : Offence d b .term ts t cause) :
    Offence d b .expression (x.yield ++ sign.val :: ts) t cause

variable {d : Dialect} {b : Bindings}

/-! ## The tokens of an offence -/

theorem Dialect.Opens.inExpression (hd : d.GroupsWithin .full) {t : Token} {k : Token.Kind}
    (h : d.Opens t k) : t.kind.inExpression := by
  obtain h | ⟨-, hk, -⟩ := h
  · exact (hd.inExpression h).1
  · rw [hk]
    rfl

namespace Offence

variable {tier : Tier} {ts : List Token} {t : Token} {cause : Cause}

/-- The token to blame is one of the tokens. -/
theorem mem (h : Offence d b tier ts t cause) : t ∈ ts := by
  induction h with
  | factor | name | closing | argument | root | rootClosing | factorial | divisor => simp
  | base _ ih | power _ ih | term _ ih => exact ih
  | group _ _ ih | radicand _ _ _ ih | signed _ _ _ ih | exponent _ _ _ ih
  | operand _ _ _ _ ih | addend _ _ _ _ ih => simp [ih]

/-- The last one is the only token that need not belong to an expression. -/
theorem inExpression_of_mem (hd : d.GroupsWithin .full) (h : Offence d b tier ts t cause) :
    ∀ u ∈ ts.dropLast, u.kind.inExpression := by
  have hproduct (op : ProductOp) : op.kind.inExpression := by cases op <;> rfl
  have hsum (op : SumOp) : op.kind.inExpression := by cases op <;> rfl
  -- More tokens in front, all of them in expressions, leave the last one last.
  have hfront (us : List Token) {ts : List Token} {t : Token} {tier : Tier} {cause : Cause}
      (h : Offence d b tier ts t cause) (ih : ∀ u ∈ ts.dropLast, u.kind.inExpression)
      (hus : ∀ u ∈ us, u.kind.inExpression) :
      ∀ u ∈ (us ++ ts).dropLast, u.kind.inExpression := by
    rw [List.dropLast_append_of_ne_nil (List.ne_nil_of_mem h.mem)]
    simpa [or_imp, forall_and] using ⟨hus, ih⟩
  have hsign {tier : Tier} (x : Tree d tier) {sign : Token} (h : sign.kind.inExpression) :
      ∀ u ∈ x.yield ++ [sign], u.kind.inExpression := by
    simpa [or_imp, forall_and, h] using x.inExpression_of_mem hd
  induction h with
  | factor | name => simp
  | argument word => simp [word.2.1, Token.Kind.inExpression]
  | base _ ih | power _ ih | term _ ih => exact ih
  | group opens inner ih =>
    exact hfront [_] inner ih (by simpa using opens.inExpression hd)
  | signed plain sign_kind inner ih =>
    refine hfront [_] inner ih ?_
    rcases sign_kind with hk | hk <;> simp [hk, Token.Kind.inExpression]
  | radicand word opening inner ih =>
    exact hfront [_, _] inner ih (by
      simp [word.2.1, opening.2, Token.Kind.inExpression])
  | @exponent x _ mark _ _ _ _ inner ih =>
    rw [List.append_cons]
    exact hfront _ inner ih (hsign x (by rw [mark.2]; rfl))
  | @operand x _ op sign _ _ _ _ inner ih =>
    rw [List.append_cons]
    exact hfront _ inner ih (hsign x (by rw [sign.2, hproduct]))
  | @addend x _ op sign _ _ _ _ inner ih =>
    rw [List.append_cons]
    exact hfront _ inner ih (hsign x (by rw [sign.2, hsum]))
  | @closing opening t k bracket T _ opens =>
    rw [← List.cons_append, List.dropLast_concat]
    simpa [opens.inExpression hd] using T.inExpression_of_mem hd
  | @rootClosing word opening T =>
    rw [← List.cons_append, ← List.cons_append, List.dropLast_concat]
    simpa [word.2.1, opening.2, Token.Kind.inExpression] using T.inExpression_of_mem hd
  | @factorial x _ mark =>
    rw [List.dropLast_concat]
    exact x.inExpression_of_mem hd
  | @root word opening T =>
    -- here and below the last token belongs to an expression as well
    have hall : ∀ u ∈ word.val :: opening.val :: T.yield, u.kind.inExpression := by
      simpa [word.2.1, opening.2, Token.Kind.inExpression] using T.inExpression_of_mem hd
    exact fun u hu => hall u ((List.dropLast_sublist _).subset hu)
  | @divisor x y _ _ op sign =>
    have hall : ∀ u ∈ x.yield ++ sign.val :: y.yield, u.kind.inExpression := by
      simpa [sign.2, hproduct, or_imp, forall_and] using
        ⟨x.inExpression_of_mem hd, y.inExpression_of_mem hd⟩
    exact fun u hu => hall u ((List.dropLast_sublist _).subset hu)

end Offence

end Calculator
