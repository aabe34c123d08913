import Calculator.Proofs.Reading.Operators

/-! # Derivation trees

    The grammar of expressions, as the trees of its derivations:

        expression ::= term | expression ("+" | "-") term
        term       ::= power | term ("*" | "/" | "%") power
        power      ::= factor | factor "!" | factor "^" factor
        factor     ::= opening expression closing | "|" expression "|"
                     | "sqrt" "(" expression ")" | "-" factor | "+" factor
                     | number | name

    A leaf is a token, so that the yield of a tree is a list of tokens. Sums and
    products lean to the left. A dialect may use any token as an opening bracket,
    and then the token has no other meaning; the leaves of the other factors say
    that theirs is not used so.

    The value of a tree is defined along the tree, with no scanner in sight. Its
    first error, in the order of evaluation from left to right, is a `Cause`.
-/

namespace Calculator

open CrossCheck (Tier SumOp ProductOp)

/-! ## Trees -/

/-- A token of a given kind. -/
abbrev Token.Of (k : Token.Kind) : Type := { t : Token // t.kind = k }

/-- A token of a given kind that opens no group in the dialect. -/
abbrev Dialect.Plain (d : Dialect) (k : Token.Kind) : Type :=
  { t : Token // t.kind = k ∧ d.closing? t = none }

/-- A derivation in the grammar of a dialect, by the tier that it derives. -/
inductive Tree (d : Dialect) : Tier → Type where
  | number (t : d.Plain .number) : Tree d .factor
  | name (t : d.Plain .name) : Tree d .factor
  /-- An expression between an opening bracket and the closing one that the
      dialect pairs with it. -/
  | group (opening : Token) (inner : Tree d .expression) (closing : Token)
      (paired : d.closing? opening = some closing.kind) : Tree d .factor
  /-- An absolute value, in a dialect that has it. -/
  | bars (enabled : d.absoluteValue = true) (opening : d.Plain .bar)
      (inner : Tree d .expression) (closing : Token.Of .bar) : Tree d .factor
  | root (word : d.Plain .rootWord) (opening : Token.Of .openParen)
      (inner : Tree d .expression) (closing : Token.Of .closeParen) : Tree d .factor
  | negated (sign : d.Plain .minus) (x : Tree d .factor) : Tree d .factor
  | signed (sign : d.Plain .plus) (x : Tree d .factor) : Tree d .factor
  | factor (x : Tree d .factor) : Tree d .power
  | factorial (x : Tree d .factor) (mark : Token.Of .bang) : Tree d .power
  | raised (base : Tree d .factor) (mark : Token.Of .caret) (exponent : Tree d .factor) :
      Tree d .power
  | power (x : Tree d .power) : Tree d .term
  | product (x : Tree d .term) (op : ProductOp) (sign : Token.Of op.kind) (y : Tree d .power) :
      Tree d .term
  | term (x : Tree d .term) : Tree d .expression
  | sum (x : Tree d .expression) (op : SumOp) (sign : Token.Of op.kind) (y : Tree d .term) :
      Tree d .expression

namespace Tree

variable {d : Dialect}

/-- The tokens of a tree from left to right. -/
def yield : {tier : Tier} → Tree d tier → List Token
  | _, number t => [t.val]
  | _, name t => [t.val]
  | _, group opening inner closing _ => opening :: (inner.yield ++ [closing])
  | _, bars _ opening inner closing => opening.val :: (inner.yield ++ [closing.val])
  | _, root word opening inner closing =>
    word.val :: opening.val :: (inner.yield ++ [closing.val])
  | _, negated sign x => sign.val :: x.yield
  | _, signed sign x => sign.val :: x.yield
  | _, factor x => x.yield
  | _, factorial x mark => x.yield ++ [mark.val]
  | _, raised base mark exponent => base.yield ++ mark.val :: exponent.yield
  | _, power x => x.yield
  | _, product x _ sign y => x.yield ++ sign.val :: y.yield
  | _, term x => x.yield
  | _, sum x _ sign y => x.yield ++ sign.val :: y.yield

/-- The value of a tree, or its first error. -/
def value (b : Bindings) : {tier : Tier} → Tree d tier → Except Cause Float
  | _, number t => .ok t.val.value
  | _, name t => b.get t.val.lexeme
  | _, group _ inner _ _ => inner.value b
  | _, bars _ _ inner _ => do
    let x ← inner.value b
    pure x.abs
  | _, root _ _ inner _ => do
    let x ← inner.value b
    squareRoot x
  | _, negated _ x => do
    let x ← x.value b
    pure (-x)
  | _, signed _ x => x.value b
  | _, factor x => x.value b
  | _, factorial x _ => do
    let x ← x.value b
    Calculator.factorial x
  | _, raised base _ exponent => do
    let x ← base.value b
    let y ← exponent.value b
    pure (Binary64.power x y)
  | _, power x => x.value b
  | _, product x op _ y => do
    let x ← x.value b
    let y ← y.value b
    op.apply x y
  | _, term x => x.value b
  | _, sum x op _ y => do
    let x ← x.value b
    let y ← y.value b
    pure (op.apply x y)

section value
variable {b : Bindings} {v w : Float}

/-! The value of a compound tree, by those of its parts. -/

theorem value_bars {enabled : d.absoluteValue = true} {opening : d.Plain .bar}
    {inner : Tree d .expression} {closing : Token.Of .bar} (h : inner.value b = .ok v) :
    (bars enabled opening inner closing).value b = .ok v.abs := by
  show (inner.value b >>= fun v => pure v.abs) = _
  rw [h]
  rfl

theorem value_root {word : d.Plain .rootWord} {opening : Token.Of .openParen}
    {inner : Tree d .expression} {closing : Token.Of .closeParen} (h : inner.value b = .ok v) :
    (root word opening inner closing).value b = squareRoot v :=
  congrArg (· >>= squareRoot) h

theorem value_negated {sign : d.Plain .minus} {x : Tree d .factor} (h : x.value b = .ok v) :
    (negated sign x).value b = .ok (-v) := by
  show (x.value b >>= fun v => pure (-v)) = _
  rw [h]
  rfl

theorem value_factorial {x : Tree d .factor} {mark : Token.Of .bang} (h : x.value b = .ok v) :
    (factorial x mark).value b = Calculator.factorial v :=
  congrArg (· >>= Calculator.factorial) h

theorem value_raised {x y : Tree d .factor} {mark : Token.Of .caret} (hx : x.value b = .ok v)
    (hy : y.value b = .ok w) : (raised x mark y).value b = .ok (Binary64.power v w) := by
  show (x.value b >>= fun v => y.value b >>= fun w => pure (Binary64.power v w)) = _
  rw [hx, hy]
  rfl

theorem value_product {x : Tree d .term} {op : ProductOp} {sign : Token.Of op.kind}
    {y : Tree d .power} (hx : x.value b = .ok v) (hy : y.value b = .ok w) :
    (product x op sign y).value b = op.apply v w := by
  show (x.value b >>= fun v => y.value b >>= fun w => op.apply v w) = _
  rw [hx, hy]
  rfl

theorem value_sum {x : Tree d .expression} {op : SumOp} {sign : Token.Of op.kind}
    {y : Tree d .term} (hx : x.value b = .ok v) (hy : y.value b = .ok w) :
    (sum x op sign y).value b = .ok (op.apply v w) := by
  show (x.value b >>= fun v => y.value b >>= fun w => pure (op.apply v w)) = _
  rw [hx, hy]
  rfl

end value

/-- Whether the last power in the tree has a postfix operator, so that no other
    one can follow. -/
def closed : {tier : Tier} → Tree d tier → Bool
  | _, number _ | _, name _ | _, group _ _ _ _ | _, bars _ _ _ _ | _, root _ _ _ _ => false
  | _, negated _ _ | _, signed _ _ => false
  | _, factor _ => false
  | _, factorial _ _ | _, raised _ _ _ => true
  | _, power x => x.closed
  | _, product _ _ _ y => y.closed
  | _, term x => x.closed
  | _, sum _ _ _ y => y.closed

/-- Whether a token of kind `k` behind the tree can belong to the power at its
    end. -/
def TakesPostfix {tier : Tier} (T : Tree d tier) (k : Token.Kind) : Prop :=
  T.closed = false ∧ k.IsPostfix

/-- Whether a token of kind `k` behind the term can belong to it. -/
def TermTakes {tier : Tier} (T : Tree d tier) (k : Token.Kind) : Prop :=
  T.TakesPostfix k ∨ ∃ op : ProductOp, k = op.kind

/-- Whether the token can extend the expression that it stands behind: it is a
    sign between terms or powers, or a postfix operator and the last power has
    none yet. -/
def CanExtend (T : Tree d .expression) (t : Token) : Prop :=
  T.TermTakes t.kind ∨ ∃ op : SumOp, t.kind = op.kind

end Tree

end Calculator
