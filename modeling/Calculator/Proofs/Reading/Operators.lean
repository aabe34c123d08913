import Calculator.CrossCheck.Sample
import Calculator.Proofs.Reading.Budget

/-! # Operators

    The operators of sums and products, each with its token and its value, and
    the two ways to go on behind an operand: an operator calls for the next
    operand, and any other token is put back.
-/

namespace Calculator

open CrossCheck (SumOp ProductOp)
open Reading

/-! ## Tokens and values -/

/-- The token of the operator. -/
def CrossCheck.SumOp.kind : SumOp → Token.Kind
  | .add => .plus
  | .sub => .minus

/-- The sum or difference. -/
def CrossCheck.SumOp.apply : SumOp → Float → Float → Float
  | .add, x, y => x + y
  | .sub, x, y => x - y

/-- The token of the operator. -/
def CrossCheck.ProductOp.kind : ProductOp → Token.Kind
  | .mul => .star
  | .div => .slash
  | .mod => .percent

/-- The product, quotient or remainder. A zero divisor of either sign is an
    error. -/
def CrossCheck.ProductOp.apply : ProductOp → Float → Float → Except Cause Float
  | .mul, x, y => .ok (x * y)
  | .div, x, y => if y == 0 then .error .divisionByZero else .ok (x / y)
  | .mod, x, y => if y == 0 then .error .moduloByZero else .ok (Binary64.remainder x y)

/-- Whether a token is one of the operators behind a factor. -/
def Token.Kind.IsPostfix (k : Token.Kind) : Prop := k = .bang ∨ k = .caret

/-! ## After an operator and after any other token -/

section after
variable {d : Dialect} {b : Bindings} {t : Token}

theorem sumAfter_of_op {op : SumOp} (h : t.kind = op.kind) (term : Reading Float)
    (more : Float → Reading Float) (left : Float) :
    sumAfter term more left t = term >>= fun right => more (op.apply left right) := by
  unfold sumAfter
  rw [h]
  cases op <;> rfl

theorem sumAfter_of_other (h : ∀ op : SumOp, t.kind ≠ op.kind) (term : Reading Float)
    (more : Float → Reading Float) (left : Float) :
    sumAfter term more left t = putBack t >>= fun _ => pure left := by
  unfold sumAfter
  split
  · next hk => exact absurd hk (h .add)
  · next hk => exact absurd hk (h .sub)
  · rfl

theorem productAfter_of_op {op : ProductOp} (h : t.kind = op.kind) (power : Reading Float)
    (more : Float → Reading Float) (left : Float) :
    productAfter power more left t =
      power >>= fun right => located t (op.apply left right) >>= more := by
  unfold productAfter
  rw [h]
  cases op with
  | mul => rfl
  | div =>
    refine bind_congr fun right => ?_
    simp only [divide, ProductOp.apply]
    split <;> rfl
  | mod =>
    refine bind_congr fun right => ?_
    simp only [modulo, ProductOp.apply]
    split <;> rfl

theorem productAfter_of_other (h : ∀ op : ProductOp, t.kind ≠ op.kind) (power : Reading Float)
    (more : Float → Reading Float) (left : Float) :
    productAfter power more left t = putBack t >>= fun _ => pure left := by
  unfold productAfter
  split
  · next hk => exact absurd hk (h .mul)
  · next hk => exact absurd hk (h .div)
  · next hk => exact absurd hk (h .mod)
  · rfl

theorem powerAfter_of_other (h : ¬ t.kind.IsPostfix) (factor : Reading Float) (base : Float) :
    powerAfter factor base t = putBack t >>= fun _ => pure base := by
  unfold powerAfter
  split
  · next hk => exact absurd (.inl hk) h
  · next hk => exact absurd (.inr hk) h
  · rfl

theorem factorAfter_of_closing {closing : Token.Kind} (h : d.closing? t = some closing)
    (inner factor : Reading Float) :
    factorAfter d b inner factor t = groupRest inner closing id := by
  simp only [factorAfter, h]

end after

end Calculator
