import Calculator.Expression.Progress

/-! # Readers without budgets

    Every reader of expressions is defined with a budget. A budget that is
    large enough for what is left to read may be replaced by any larger one
    (`stable`), so each reader has a form that chooses its own budget:
    `readSum`, `readTerm`, `readProduct`, `readPower` and `readFactor` beside
    `expression`. They satisfy the equations of the grammar on every state
    (`expression_eq` to `readFactor_eq`).

    A reader looks at one token and then goes on in a way that depends on that
    token. `sumAfter`, `productAfter`, `powerAfter` and `factorAfter` are what
    it does after the token, with the readers that it calls as parameters, so
    that the cases of the grammar are gone through here once for each purpose
    and not once for each budget.
-/

namespace Calculator

open Reading

/-! ## What follows a token -/

section after
variable (d : Dialect) (b : Bindings)

/-- How a sum goes on after the token behind its value so far. -/
def sumAfter (term : Reading Float) (more : Float → Reading Float) (left : Float) (t : Token) :
    Reading Float :=
  match t.kind with
  | .plus => do
    let right ← term
    more (left + right)
  | .minus => do
    let right ← term
    more (left - right)
  | _ => do
    putBack t
    pure left

/-- How a product goes on after the token behind its value so far. -/
def productAfter (power : Reading Float) (more : Float → Reading Float) (left : Float)
    (t : Token) : Reading Float :=
  match t.kind with
  | .star => do
    let right ← power
    more (left * right)
  | .slash => do
    let right ← power
    more (← divide t left right)
  | .percent => do
    let right ← power
    more (← modulo t left right)
  | _ => do
    putBack t
    pure left

/-- How a power goes on after the token behind its first factor. -/
def powerAfter (factor : Reading Float) (base : Float) (t : Token) : Reading Float :=
  match t.kind with
  | .bang => located t (factorial base)
  | .caret => do
    let exponent ← factor
    pure (Binary64.power base exponent)
  | _ => do
    putBack t
    pure base

/-- The rest of a group: the expression in it and the closing token. -/
def groupRest (inner : Reading Float) (closing : Token.Kind) (f : Float → Float) :
    Reading Float := do
  let x ← inner
  expectClosing closing
  pure (f x)

/-- The rest of a square root. -/
def rootRest (inner : Reading Float) (t : Token) : Reading Float := do
  let _ ← expect .openParen .missingRootArgument
  let x ← inner
  let root ← located t (squareRoot x)
  expectClosing .closeParen
  pure root

/-- How a factor goes on after its first token. -/
def factorAfter (inner factor : Reading Float) (t : Token) : Reading Float :=
  match d.closing? t with
  | some closing => groupRest inner closing id
  | none =>
    match t.kind with
    | .bar => if d.absoluteValue then groupRest inner .bar Float.abs else rejectAt t .missingFactor
    | .rootWord => rootRest inner t
    | .minus => do
      let x ← factor
      pure (-x)
    | .plus => factor
    | .number => pure t.value
    | .name => located t (b.get t.lexeme)
    | _ => rejectAt t .missingFactor

end after

section levels
variable (d : Dialect) (b : Bindings) (n : Nat)

theorem expressionWithin_succ :
    expressionWithin d b (n + 1) = termWithin d b n >>= sumWithin d b n := rfl

theorem sumWithin_succ (left : Float) :
    sumWithin d b (n + 1) left =
      next >>= sumAfter (termWithin d b n) (sumWithin d b n) left := rfl

theorem termWithin_succ :
    termWithin d b (n + 1) = powerWithin d b n >>= productWithin d b n := rfl

theorem productWithin_succ (left : Float) :
    productWithin d b (n + 1) left =
      next >>= productAfter (powerWithin d b n) (productWithin d b n) left := rfl

theorem powerWithin_succ :
    powerWithin d b (n + 1) =
      factorWithin d b n >>= fun base => next >>= powerAfter (factorWithin d b n) base := rfl

theorem factorWithin_succ :
    factorWithin d b (n + 1) =
      next >>= factorAfter d b (expressionWithin d b n) (factorWithin d b n) := rfl

end levels

namespace Reading

variable {α β : Type}

/-- Two sequences agree on a state if their first parts do, and their second
    parts do on every state that the first part can end in. -/
theorem bind_congr_of_ends {m m' : Reading α} {f f' : α → Reading β} {s : Scanner}
    {bound : Nat} {mid : α → Scanner → Prop} (hends : m.Ends s bound mid) (hm : m' s = m s)
    (hf : ∀ a s', mid a s' → s'.remaining ≤ bound → f' a s' = f a s') :
    (m' >>= f') s = (m >>= f) s := by
  simp only [Bind.bind, EStateM.bind]
  unfold Ends at hends
  rw [hm]
  cases hr : m s with
  | ok a s' =>
    rw [hr] at hends
    exact hf a s' hends.1 hends.2
  | error e s' => rfl

end Reading

/-! ## Larger budgets change nothing -/

/-- The six readers of expressions. -/
structure Readers where
  factor : Reading Float
  power : Reading Float
  /-- Continues a product whose value so far is given. -/
  product : Float → Reading Float
  term : Reading Float
  /-- Continues a sum whose value so far is given. -/
  sum : Float → Reading Float
  expression : Reading Float

/-- The readers with budget `n`. -/
def Readers.within (d : Dialect) (b : Bindings) (n : Nat) : Readers where
  factor := factorWithin d b n
  power := powerWithin d b n
  product := productWithin d b n
  term := termWithin d b n
  sum := sumWithin d b n
  expression := expressionWithin d b n

/-- The given readers do what the readers with budget `n` do, wherever `n` is
    large enough for what is left to read. -/
structure Readers.Agree (R : Readers) (d : Dialect) (b : Bindings) (n : Nat) : Prop where
  factor : ∀ s : Scanner, 4 * s.remaining + 1 ≤ n → R.factor s = factorWithin d b n s
  power : ∀ s : Scanner, 4 * s.remaining + 2 ≤ n → R.power s = powerWithin d b n s
  product : ∀ (left : Float) (s : Scanner), 4 * s.remaining + 1 ≤ n →
    R.product left s = productWithin d b n left s
  term : ∀ s : Scanner, 4 * s.remaining + 3 ≤ n → R.term s = termWithin d b n s
  sum : ∀ (left : Float) (s : Scanner), 4 * s.remaining + 1 ≤ n →
    R.sum left s = sumWithin d b n left s
  expression : ∀ s : Scanner, 4 * s.remaining + 4 ≤ n →
    R.expression s = expressionWithin d b n s

namespace Readers.Agree

variable {R : Readers} {d : Dialect} {b : Bindings} {n : Nat}

theorem groupRest (h : R.Agree d b n) (closing : Token.Kind) (f : Float → Float) {s : Scanner}
    (hn : 4 * s.remaining + 4 ≤ n) :
    Calculator.groupRest R.expression closing f s =
      Calculator.groupRest (expressionWithin d b n) closing f s :=
  bind_congr_of_ends ((withinBudget d b n).expression s hn) (h.expression s hn)
    fun _ _ _ _ => rfl

theorem factorAfter (h : R.Agree d b n) (t : Token) {s : Scanner}
    (hn : 4 * (s.remaining + t.weight) ≤ n) :
    Calculator.factorAfter d b R.expression R.factor t s =
      Calculator.factorAfter d b (expressionWithin d b n) (factorWithin d b n) t s := by
  unfold Calculator.factorAfter
  cases hc : d.closing? t with
  | some closing =>
    have hw := Dialect.weight_of_closing? hc
    exact h.groupRest closing id (by omega)
  | none =>
    -- A token that something follows is not the end of the text, so it has a weight,
    -- and reading it has freed enough of the budget for the readers behind it.
    cases hk : t.kind
    case bar =>
      have hw := Token.weight_of_kind (t := t) (by simp [hk])
      dsimp only
      split
      · exact h.groupRest .bar Float.abs (by omega)
      · rfl
    case rootWord =>
      have hw := Token.weight_of_kind (t := t) (by simp [hk])
      refine bind_congr_of_ends (ends_expect _ _ s) rfl fun _ s₂ _ hb₂ => ?_
      exact bind_congr_of_ends ((withinBudget d b n).expression s₂ (by omega))
        (h.expression s₂ (by omega)) fun _ _ _ _ => rfl
    case minus =>
      have hw := Token.weight_of_kind (t := t) (by simp [hk])
      exact bind_congr_of_ends ((withinBudget d b n).factor s (by omega))
        (h.factor s (by omega)) fun _ _ _ _ => rfl
    case plus =>
      have hw := Token.weight_of_kind (t := t) (by simp [hk])
      exact h.factor s (by omega)
    all_goals rfl

theorem powerAfter (h : R.Agree d b n) (base : Float) (t : Token) {s : Scanner}
    (hn : 4 * (s.remaining + t.weight) ≤ n) :
    Calculator.powerAfter R.factor base t s =
      Calculator.powerAfter (factorWithin d b n) base t s := by
  unfold Calculator.powerAfter
  cases hk : t.kind
  case caret =>
    have hw := Token.weight_of_kind (t := t) (by simp [hk])
    exact bind_congr_of_ends ((withinBudget d b n).factor s (by omega))
      (h.factor s (by omega)) fun _ _ _ _ => rfl
  all_goals rfl

theorem productAfter (h : R.Agree d b n) (left : Float) (t : Token) {s : Scanner}
    (hn : 4 * (s.remaining + t.weight) ≤ n) :
    Calculator.productAfter R.power R.product left t s =
      Calculator.productAfter (powerWithin d b n) (productWithin d b n) left t s := by
  unfold Calculator.productAfter
  cases hk : t.kind
  case star =>
    have hw := Token.weight_of_kind (t := t) (by simp [hk])
    exact bind_congr_of_ends ((withinBudget d b n).power s (by omega))
      (h.power s (by omega)) fun y s₂ _ hb₂ => h.product _ s₂ (by omega)
  case slash =>
    have hw := Token.weight_of_kind (t := t) (by simp [hk])
    refine bind_congr_of_ends ((withinBudget d b n).power s (by omega))
      (h.power s (by omega)) fun y s₂ _ hb₂ => ?_
    -- the check of the divisor reads nothing
    exact bind_congr_of_ends (ends_divide hb₂) rfl fun z s₃ _ hb₃ => h.product _ s₃ (by omega)
  case percent =>
    have hw := Token.weight_of_kind (t := t) (by simp [hk])
    refine bind_congr_of_ends ((withinBudget d b n).power s (by omega))
      (h.power s (by omega)) fun y s₂ _ hb₂ => ?_
    exact bind_congr_of_ends (ends_modulo hb₂) rfl fun z s₃ _ hb₃ => h.product _ s₃ (by omega)
  all_goals rfl

theorem sumAfter (h : R.Agree d b n) (left : Float) (t : Token) {s : Scanner}
    (hn : 4 * (s.remaining + t.weight) ≤ n) :
    Calculator.sumAfter R.term R.sum left t s =
      Calculator.sumAfter (termWithin d b n) (sumWithin d b n) left t s := by
  unfold Calculator.sumAfter
  cases hk : t.kind
  case plus | minus =>
    have hw := Token.weight_of_kind (t := t) (by simp [hk])
    exact bind_congr_of_ends ((withinBudget d b n).term s (by omega))
      (h.term s (by omega)) fun y s₂ _ hb₂ => h.sum _ s₂ (by omega)
  all_goals rfl

theorem nextFactor (h : R.Agree d b n) (s : Scanner) (hn : 4 * s.remaining ≤ n) :
    (next >>= Calculator.factorAfter d b R.expression R.factor) s =
      factorWithin d b (n + 1) s :=
  bind_congr_of_ends (ends_next s) rfl fun t _ ht _ => h.factorAfter t (by omega)

theorem nextPower (h : R.Agree d b n) (s : Scanner) (hn : 4 * s.remaining + 1 ≤ n) :
    (R.factor >>= fun base => next >>= Calculator.powerAfter R.factor base) s =
      powerWithin d b (n + 1) s := by
  refine bind_congr_of_ends ((withinBudget d b n).factor s hn) (h.factor s hn)
    fun x s₁ h₁ _ => ?_
  exact bind_congr_of_ends (ends_next s₁) rfl fun t _ ht _ => h.powerAfter x t (by omega)

theorem nextProduct (h : R.Agree d b n) (left : Float) (s : Scanner)
    (hn : 4 * s.remaining ≤ n) :
    (next >>= Calculator.productAfter R.power R.product left) s =
      productWithin d b (n + 1) left s :=
  bind_congr_of_ends (ends_next s) rfl fun t _ ht _ => h.productAfter left t (by omega)

theorem nextTerm (h : R.Agree d b n) (s : Scanner) (hn : 4 * s.remaining + 2 ≤ n) :
    (R.power >>= R.product) s = termWithin d b (n + 1) s :=
  bind_congr_of_ends ((withinBudget d b n).power s hn) (h.power s hn)
    fun x s₁ _ _ => h.product x s₁ (by omega)

theorem nextSum (h : R.Agree d b n) (left : Float) (s : Scanner) (hn : 4 * s.remaining ≤ n) :
    (next >>= Calculator.sumAfter R.term R.sum left) s = sumWithin d b (n + 1) left s :=
  bind_congr_of_ends (ends_next s) rfl fun t _ ht _ => h.sumAfter left t (by omega)

theorem nextExpression (h : R.Agree d b n) (s : Scanner) (hn : 4 * s.remaining + 3 ≤ n) :
    (R.term >>= R.sum) s = expressionWithin d b (n + 1) s :=
  bind_congr_of_ends ((withinBudget d b n).term s hn) (h.term s hn)
    fun x s₁ _ _ => h.sum x s₁ (by omega)

end Readers.Agree

/-- A budget that is large enough may be replaced by any larger one. -/
theorem within_agree (d : Dialect) (b : Bindings) {n m : Nat} (h : n ≤ m) :
    (Readers.within d b m).Agree d b n := by
  -- Induction on the smaller budget. The larger one goes down with it, whatever it is.
  induction n generalizing m with
  | zero =>
    -- no state is so small that no budget would be enough
    constructor <;> intros <;> omega
  | succ n ih =>
    obtain ⟨m, rfl⟩ : ∃ k, m = k + 1 := ⟨m - 1, by omega⟩
    have hm := ih (m := m) (by omega)
    exact
      { factor := fun s hn => hm.nextFactor s (by omega)
        power := fun s hn => hm.nextPower s (by omega)
        product := fun left s hn => hm.nextProduct left s (by omega)
        term := fun s hn => hm.nextTerm s (by omega)
        sum := fun left s hn => hm.nextSum left s (by omega)
        expression := fun s hn => hm.nextExpression s (by omega) }

/-! ## The readers with a budget of their own -/

section own
variable (d : Dialect) (b : Bindings)

/-- Reads a factor. -/
def readFactor : Reading Float := fun s => factorWithin d b s.nestingBudget s

/-- Reads a power. -/
def readPower : Reading Float := fun s => powerWithin d b s.nestingBudget s

/-- Continues a product whose value so far is `left`. -/
def readProduct (left : Float) : Reading Float := fun s =>
  productWithin d b s.nestingBudget left s

/-- Reads a term. -/
def readTerm : Reading Float := fun s => termWithin d b s.nestingBudget s

/-- Continues a sum whose value so far is `left`. -/
def readSum (left : Float) : Reading Float := fun s => sumWithin d b s.nestingBudget left s

/-- The readers with a budget of their own. -/
def Readers.own : Readers where
  factor := readFactor d b
  power := readPower d b
  product := readProduct d b
  term := readTerm d b
  sum := readSum d b
  expression := Calculator.expression d b

/-- The own budget of a reader is large enough, and so is every other one that
    is: they agree with the larger of the two. -/
theorem own_agree (n : Nat) : (Readers.own d b).Agree d b n := by
  have hown (s : Scanner) : s.nestingBudget = 4 * s.remaining + 4 := rfl
  have hlarger (s : Scanner) := within_agree d b (Nat.le_max_left n s.nestingBudget)
  have howned (s : Scanner) := within_agree d b (Nat.le_max_right n s.nestingBudget)
  exact
    { factor := fun s hn =>
        ((howned s).factor s (by rw [hown]; omega)).symm.trans ((hlarger s).factor s hn)
      power := fun s hn =>
        ((howned s).power s (by rw [hown]; omega)).symm.trans ((hlarger s).power s hn)
      product := fun left s hn =>
        ((howned s).product left s (by rw [hown]; omega)).symm.trans
          ((hlarger s).product left s hn)
      term := fun s hn =>
        ((howned s).term s (by rw [hown]; omega)).symm.trans ((hlarger s).term s hn)
      sum := fun left s hn =>
        ((howned s).sum left s (by rw [hown]; omega)).symm.trans ((hlarger s).sum left s hn)
      expression := fun s hn =>
        ((howned s).expression s (Nat.le_of_eq (hown s).symm)).symm.trans
          ((hlarger s).expression s hn) }

/-! ## The equations of the grammar -/

theorem expression_eq : expression d b = readTerm d b >>= readSum d b :=
  funext fun s => ((own_agree d b (4 * s.remaining + 3)).nextExpression s (Nat.le_refl _)).symm

theorem readSum_eq (left : Float) :
    readSum d b left = next >>= sumAfter (readTerm d b) (readSum d b) left :=
  funext fun s => ((own_agree d b (4 * s.remaining + 3)).nextSum left s (by omega)).symm

theorem readTerm_eq : readTerm d b = readPower d b >>= readProduct d b :=
  funext fun s => ((own_agree d b (4 * s.remaining + 3)).nextTerm s (by omega)).symm

theorem readProduct_eq (left : Float) :
    readProduct d b left = next >>= productAfter (readPower d b) (readProduct d b) left :=
  funext fun s => ((own_agree d b (4 * s.remaining + 3)).nextProduct left s (by omega)).symm

theorem readPower_eq :
    readPower d b =
      readFactor d b >>= fun base => next >>= powerAfter (readFactor d b) base :=
  funext fun s => ((own_agree d b (4 * s.remaining + 3)).nextPower s (by omega)).symm

theorem readFactor_eq :
    readFactor d b = next >>= factorAfter d b (expression d b) (readFactor d b) :=
  funext fun s => ((own_agree d b (4 * s.remaining + 3)).nextFactor s (by omega)).symm

end own

end Calculator
