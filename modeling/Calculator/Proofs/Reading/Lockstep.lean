import Calculator.Proofs.Dialect
import Calculator.Proofs.Reading.Operators
import Calculator.Proofs.Reading.Tokens
import Calculator.Session

/-! # Reading in lockstep

    Two scanners can be so alike that all readers do the same on both. A
    `Lockstep` says how: three relations between scanners, with what single
    tokens do to them.

    - `Ready`: the next tokens are alike.
    - `Held`: two tokens were just handed out. Either they are alike and the
      scanners are ready again, or both are *stops*, tokens that end a statement
      for the readers. Behind a stop nothing is known; the readers put it back
      or fail.
    - `Failed`: the state in which a statement is given up.

    Two more relations say how much the rejections have in common: `Level` holds
    of tokens that were handed out together, so that either may be blamed later,
    and `Rejects` of the rejections.

    Whatever the relations are, expressions and statements behind their first token
    keep them (`both_expression`, `both_statementAfter`). Taken with the same scanner
    on both sides, a lockstep is an invariant of reading.
-/

namespace Calculator

open CrossCheck (SumOp ProductOp)
open Reading

/-! ## Tokens -/

namespace Token

/-- The tokens differ in their places at most. -/
structure Alike (t₁ t₂ : Token) : Prop where
  kind : t₁.kind = t₂.kind
  lexeme : t₁.lexeme = t₂.lexeme
  value : t₁.value = t₂.value

theorem Alike.refl (t : Token) : t.Alike t := ⟨rfl, rfl, rfl⟩

theorem Alike.isEnd {t₁ t₂ : Token} (h : t₁.Alike t₂) : t₁.isEnd = t₂.isEnd := by
  rw [Token.isEnd, Token.isEnd, h.kind, h.lexeme]

end Token

theorem Token.Alike.closing? {t₁ t₂ : Token} (h : t₁.Alike t₂) (d : Dialect) :
    d.closing? t₁ = d.closing? t₂ := by
  rw [Dialect.closing?, Dialect.closing?, h.isEnd, h.kind]

/-! ## Statements -/

/-- How a statement goes on after its first token. -/
def statementAfter (d : Dialect) (b : Bindings) (t : Token) : Reading Action :=
  match t.kind with
  | .letWord => do
    let (name, value) ← readClause d b .declaration
    pure (.declare name value false)
  | .constWord => do
    let (name, value) ← readClause d b .declaration
    pure (.declare name value true)
  | .setWord => do
    let (name, value) ← readClause d b .assignment
    pure (.assign name value)
  | _ => do
    putBack t
    let value ← expression d b
    pure (.print value)

theorem readStatement_eq (d : Dialect) (b : Bindings) :
    readStatement d b = next >>= statementAfter d b := rfl

/-! ## The judgement -/

/-- Relations between two scanners that single tokens keep. -/
structure Lockstep where
  /-- The tokens behind which nothing is known. -/
  Stop : Token → Prop
  Ready : Scanner → Scanner → Prop
  Held : Token → Token → Scanner → Scanner → Prop
  Failed : Scanner → Scanner → Prop
  Level : Token → Token → Prop
  Rejects : Rejection → Rejection → Prop
  /-- The next tokens are alike or stops, or no token can be read. -/
  get : ∀ {s₁ s₂}, Ready s₁ s₂ →
    (∃ t₁ t₂ s₁' s₂', s₁.get = (.ok t₁, s₁') ∧ s₂.get = (.ok t₂, s₂') ∧ Held t₁ t₂ s₁' s₂') ∨
      ∃ r₁ r₂ s₁' s₂', s₁.get = (.error r₁, s₁') ∧ s₂.get = (.error r₂, s₂') ∧
        Rejects r₁ r₂ ∧ Failed s₁' s₂'
  held_slot : ∀ {t₁ t₂ s₁ s₂}, Held t₁ t₂ s₁ s₂ → s₁.slot = none ∧ s₂.slot = none
  ready_hold : ∀ {t₁ t₂ s₁ s₂}, Held t₁ t₂ s₁ s₂ → Ready (s₁.hold t₁) (s₂.hold t₂)
  alike_or_stop : ∀ {t₁ t₂ s₁ s₂}, Held t₁ t₂ s₁ s₂ →
    (t₁.Alike t₂ ∧ Ready s₁ s₂) ∨ (Stop t₁ ∧ Stop t₂)
  isStop : ∀ {t}, Stop t → t.IsStop
  failed_of_ready : ∀ {s₁ s₂}, Ready s₁ s₂ → Failed s₁ s₂
  failed_of_held : ∀ {t₁ t₂ s₁ s₂}, Held t₁ t₂ s₁ s₂ → Failed s₁ s₂
  level : ∀ {t₁ t₂ s₁ s₂}, Held t₁ t₂ s₁ s₂ → Level t₁ t₂
  /-- Tokens are rejected on the lines that the scanners stand on by then. -/
  rejects : ∀ {t₁ t₂ s₁ s₂} (cause), Level t₁ t₂ → Failed s₁ s₂ →
    Rejects ⟨cause, some ⟨s₁.cursor.line, t₁.column⟩⟩ ⟨cause, some ⟨s₂.cursor.line, t₂.column⟩⟩

namespace Lockstep

variable {α β : Type}

/-- No stop opens a group in the dialect. -/
def KeptBy (L : Lockstep) (d : Dialect) : Prop := ∀ t, L.Stop t → d.closing? t = none

/-- The same fault, up to what the rejections do not have in common. -/
def Faults (L : Lockstep) : Fault → Fault → Prop
  | .rejected r₁, .rejected r₂ => L.Rejects r₁ r₂
  | e₁, e₂ => e₁ = e₂

/-- From two states the two readings both yield values and states that satisfy
    `post`, or both stop with the same fault. -/
def Both (L : Lockstep) (m₁ m₂ : Reading α) (s₁ s₂ : Scanner)
    (post : α → α → Scanner → Scanner → Prop) : Prop :=
  match m₁ s₁, m₂ s₂ with
  | .ok a₁ s₁', .ok a₂ s₂' => post a₁ a₂ s₁' s₂'
  | .error e₁ s₁', .error e₂ s₂' => L.Faults e₁ e₂ ∧ L.Failed s₁' s₂'
  | _, _ => False

/-- The same value, and the next tokens are alike again. -/
def Agreed (L : Lockstep) (a₁ a₂ : α) (s₁ s₂ : Scanner) : Prop := a₁ = a₂ ∧ L.Ready s₁ s₂

variable {L : Lockstep} {s₁ s₂ : Scanner} {t₁ t₂ : Token}

theorem Both.bind {m₁ m₂ : Reading α} {f₁ f₂ : α → Reading β}
    {mid : α → α → Scanner → Scanner → Prop} {post : β → β → Scanner → Scanner → Prop}
    (hm : L.Both m₁ m₂ s₁ s₂ mid)
    (hf : ∀ a₁ a₂ s₁' s₂', mid a₁ a₂ s₁' s₂' → L.Both (f₁ a₁) (f₂ a₂) s₁' s₂' post) :
    L.Both (m₁ >>= f₁) (m₂ >>= f₂) s₁ s₂ post := by
  unfold Both at *
  simp only [Bind.bind, EStateM.bind]
  -- Only two values or two faults go together.
  cases hr₁ : m₁ s₁ <;> cases hr₂ : m₂ s₂ <;> rw [hr₁, hr₂] at hm
  · exact hf _ _ _ _ hm
  · exact hm.elim
  · exact hm.elim
  · exact hm

/-- After a value that both agree on, the same goes on. -/
theorem Both.andThen {m₁ m₂ : Reading α} {f : α → Reading β}
    {post : β → β → Scanner → Scanner → Prop} (hm : L.Both m₁ m₂ s₁ s₂ L.Agreed)
    (hf : ∀ a s₁' s₂', L.Ready s₁' s₂' → L.Both (f a) (f a) s₁' s₂' post) :
    L.Both (m₁ >>= f) (m₂ >>= f) s₁ s₂ post := by
  refine hm.bind fun a₁ a₂ s₁' s₂' h => ?_
  obtain ⟨rfl, hready⟩ := h
  exact hf a₁ s₁' s₂' hready

theorem both_pure {a : α} (h : L.Ready s₁ s₂) :
    L.Both (pure a) (pure a) s₁ s₂ L.Agreed :=
  ⟨rfl, h⟩

/-! ## Single tokens -/

theorem both_next (h : L.Ready s₁ s₂) : L.Both next next s₁ s₂ L.Held := by
  unfold Both next
  obtain ⟨t₁, t₂, s₁', s₂', h₁, h₂, hheld⟩ | ⟨r₁, r₂, s₁', s₂', h₁, h₂, hcause, hfailed⟩ :=
    L.get h
  · rw [h₁, h₂]
    exact hheld
  · rw [h₁, h₂]
    exact ⟨hcause, hfailed⟩

theorem both_putBack (h : L.Held t₁ t₂ s₁ s₂) :
    L.Both (putBack t₁) (putBack t₂) s₁ s₂ fun _ _ => L.Ready := by
  obtain ⟨hslot₁, hslot₂⟩ := L.held_slot h
  rw [Both, putBack_of_slot hslot₁, putBack_of_slot hslot₂]
  exact L.ready_hold h

theorem both_rejectAt {cause : Cause} {post : α → α → Scanner → Scanner → Prop}
    (hlevel : L.Level t₁ t₂) (h : L.Failed s₁ s₂) :
    L.Both (rejectAt t₁ cause : Reading α) (rejectAt t₂ cause) s₁ s₂ post :=
  ⟨L.rejects cause hlevel h, h⟩

theorem both_located {r : Except Cause Float} (hlevel : L.Level t₁ t₂) (h : L.Ready s₁ s₂) :
    L.Both (located t₁ r) (located t₂ r) s₁ s₂ L.Agreed := by
  cases r with
  | ok x => exact both_pure h
  | error cause => exact both_rejectAt hlevel (L.failed_of_ready h)

/-- A token that is expected, and is no stop, is alike on both sides. -/
theorem both_expect {kind : Token.Kind} (hterminator : kind ≠ .terminator)
    (hquit : kind ≠ .quit) {cause : Cause} (h : L.Ready s₁ s₂) :
    L.Both (expect kind cause) (expect kind cause) s₁ s₂ fun t₁ t₂ s₁' s₂' =>
      t₁.Alike t₂ ∧ L.Ready s₁' s₂' := by
  refine (both_next h).bind fun t₁ t₂ s₁' s₂' hheld => ?_
  obtain ⟨halike, hready⟩ | ⟨hstop₁, hstop₂⟩ := L.alike_or_stop hheld
  · rw [← halike.kind]
    split
    · exact ⟨halike, hready⟩
    · exact both_rejectAt (L.level hheld) (L.failed_of_held hheld)
  · -- Stops are not of the kind that is expected, so both sides reject them.
    have hne : ∀ {t : Token}, t.IsStop → t.kind ≠ kind := by
      rintro t (hk | hk) rfl
      · exact hterminator hk
      · exact hquit hk
    rw [if_neg (hne (L.isStop hstop₁)), if_neg (hne (L.isStop hstop₂))]
    exact both_rejectAt (L.level hheld) (L.failed_of_held hheld)

theorem both_expectClosing (kind : Token.Kind) (h : L.Ready s₁ s₂) :
    L.Both (expectClosing kind) (expectClosing kind) s₁ s₂ L.Agreed := by
  unfold expectClosing
  cases hb : kind.closingBracket? with
  | none => exact ⟨rfl, L.failed_of_ready h⟩
  | some bracket =>
    have hterminator : kind ≠ .terminator := by rintro rfl; cases hb
    have hquit : kind ≠ .quit := by rintro rfl; cases hb
    exact (both_expect hterminator hquit h).bind fun _ _ _ _ h => both_pure h.2

/-- Two tokens that do not go on are put back, and the value so far stands. -/
theorem both_putBack_pure {x : α} (h : L.Held t₁ t₂ s₁ s₂) :
    L.Both (putBack t₁ >>= fun _ => pure x) (putBack t₂ >>= fun _ => pure x) s₁ s₂ L.Agreed :=
  (both_putBack h).bind fun _ _ _ _ hready => both_pure hready

/-! ## Behind a token -/

section after
variable {d : Dialect} {b : Bindings}

theorem sumOp_ne_of_isStop {t : Token} (h : t.IsStop) (op : SumOp) : t.kind ≠ op.kind := by
  rcases h with h | h <;> cases op <;> simp [h, SumOp.kind]

theorem productOp_ne_of_isStop {t : Token} (h : t.IsStop) (op : ProductOp) :
    t.kind ≠ op.kind := by
  rcases h with h | h <;> cases op <;> simp [h, ProductOp.kind]

theorem not_isPostfix_of_isStop {t : Token} (h : t.IsStop) : ¬ t.kind.IsPostfix := by
  rcases h with h | h <;> simp [h, Token.Kind.IsPostfix]

theorem both_sumAfter {term : Reading Float} {more : Float → Reading Float} {left : Float}
    (hterm : ∀ {s₁ s₂}, L.Ready s₁ s₂ → L.Both term term s₁ s₂ L.Agreed)
    (hmore : ∀ x {s₁ s₂}, L.Ready s₁ s₂ → L.Both (more x) (more x) s₁ s₂ L.Agreed)
    (h : L.Held t₁ t₂ s₁ s₂) :
    L.Both (sumAfter term more left t₁) (sumAfter term more left t₂) s₁ s₂ L.Agreed := by
  obtain ⟨halike, hready⟩ | ⟨hstop₁, hstop₂⟩ := L.alike_or_stop h
  · by_cases hop : ∃ op : SumOp, t₁.kind = op.kind
    · obtain ⟨op, hk⟩ := hop
      rw [sumAfter_of_op hk, sumAfter_of_op (halike.kind ▸ hk)]
      exact (hterm hready).andThen fun y _ _ h => hmore _ h
    · -- No operator: both tokens are put back, and nothing need be known behind them.
      have hother : ∀ op : SumOp, t₁.kind ≠ op.kind := fun op hk => hop ⟨op, hk⟩
      rw [sumAfter_of_other hother, sumAfter_of_other (halike.kind ▸ hother)]
      exact both_putBack_pure h
  · rw [sumAfter_of_other (sumOp_ne_of_isStop (L.isStop hstop₁)),
      sumAfter_of_other (sumOp_ne_of_isStop (L.isStop hstop₂))]
    exact both_putBack_pure h

theorem both_productAfter {power : Reading Float} {more : Float → Reading Float} {left : Float}
    (hpower : ∀ {s₁ s₂}, L.Ready s₁ s₂ → L.Both power power s₁ s₂ L.Agreed)
    (hmore : ∀ x {s₁ s₂}, L.Ready s₁ s₂ → L.Both (more x) (more x) s₁ s₂ L.Agreed)
    (hheld : L.Held t₁ t₂ s₁ s₂) :
    L.Both (productAfter power more left t₁) (productAfter power more left t₂) s₁ s₂
      L.Agreed := by
  obtain ⟨halike, hready⟩ | ⟨hstop₁, hstop₂⟩ := L.alike_or_stop hheld
  · by_cases hop : ∃ op : ProductOp, t₁.kind = op.kind
    · obtain ⟨op, hk⟩ := hop
      rw [productAfter_of_op hk, productAfter_of_op (halike.kind ▸ hk)]
      refine (hpower hready).bind fun y _ _ _ h => ?_
      obtain ⟨rfl, h⟩ := h
      -- a zero divisor is rejected on both sides
      exact (both_located (L.level hheld) h).andThen fun z _ _ h => hmore z h
    · have hother : ∀ op : ProductOp, t₁.kind ≠ op.kind := fun op hk => hop ⟨op, hk⟩
      rw [productAfter_of_other hother, productAfter_of_other (halike.kind ▸ hother)]
      exact both_putBack_pure hheld
  · rw [productAfter_of_other (productOp_ne_of_isStop (L.isStop hstop₁)),
      productAfter_of_other (productOp_ne_of_isStop (L.isStop hstop₂))]
    exact both_putBack_pure hheld

theorem both_powerAfter {factor : Reading Float} {base : Float}
    (hfactor : ∀ {s₁ s₂}, L.Ready s₁ s₂ → L.Both factor factor s₁ s₂ L.Agreed)
    (h : L.Held t₁ t₂ s₁ s₂) :
    L.Both (powerAfter factor base t₁) (powerAfter factor base t₂) s₁ s₂ L.Agreed := by
  obtain ⟨halike, hready⟩ | ⟨hstop₁, hstop₂⟩ := L.alike_or_stop h
  · by_cases hpost : t₁.kind.IsPostfix
    · unfold powerAfter
      rw [← halike.kind]
      rcases hpost with hk | hk <;> rw [hk]
      · exact both_located (L.level h) hready
      · exact (hfactor hready).andThen fun y _ _ h => both_pure h
    · rw [powerAfter_of_other hpost, powerAfter_of_other (halike.kind ▸ hpost)]
      exact both_putBack_pure h
  · rw [powerAfter_of_other (not_isPostfix_of_isStop (L.isStop hstop₁)),
      powerAfter_of_other (not_isPostfix_of_isStop (L.isStop hstop₂))]
    exact both_putBack_pure h

theorem both_groupRest {inner : Reading Float}
    (hinner : ∀ {s₁ s₂}, L.Ready s₁ s₂ → L.Both inner inner s₁ s₂ L.Agreed)
    (closing : Token.Kind) (f : Float → Float) (h : L.Ready s₁ s₂) :
    L.Both (groupRest inner closing f) (groupRest inner closing f) s₁ s₂ L.Agreed :=
  (hinner h).andThen fun _ _ _ h => (both_expectClosing closing h).andThen fun _ _ _ h =>
    both_pure h

theorem both_rootRest {inner : Reading Float}
    (hinner : ∀ {s₁ s₂}, L.Ready s₁ s₂ → L.Both inner inner s₁ s₂ L.Agreed)
    (hlevel : L.Level t₁ t₂) (h : L.Ready s₁ s₂) :
    L.Both (rootRest inner t₁) (rootRest inner t₂) s₁ s₂ L.Agreed := by
  refine (both_expect (by decide) (by decide) h).bind fun _ _ _ _ h => ?_
  refine (hinner h.2).bind fun x _ _ _ h => ?_
  obtain ⟨rfl, h⟩ := h
  -- the root is taken before the parenthesis is closed
  refine (both_located hlevel h).andThen fun y _ _ h => ?_
  exact (both_expectClosing .closeParen h).andThen fun _ _ _ h => both_pure h

theorem factorAfter_of_stop (hd : L.KeptBy d) {t : Token} (h : L.Stop t)
    (inner factor : Reading Float) :
    factorAfter d b inner factor t = rejectAt t .missingFactor := by
  unfold factorAfter
  rw [hd t h]
  rcases L.isStop h with hk | hk <;> rw [hk]

theorem both_factorAfter (hd : L.KeptBy d) {inner factor : Reading Float}
    (hinner : ∀ {s₁ s₂}, L.Ready s₁ s₂ → L.Both inner inner s₁ s₂ L.Agreed)
    (hfactor : ∀ {s₁ s₂}, L.Ready s₁ s₂ → L.Both factor factor s₁ s₂ L.Agreed)
    (h : L.Held t₁ t₂ s₁ s₂) :
    L.Both (factorAfter d b inner factor t₁) (factorAfter d b inner factor t₂) s₁ s₂
      L.Agreed := by
  obtain ⟨halike, hready⟩ | ⟨hstop₁, hstop₂⟩ := L.alike_or_stop h
  · have hfailed := L.failed_of_ready hready
    have hlevel := L.level h
    unfold factorAfter
    -- What a factor does depends on the kind, the lexeme and the value of its first token.
    rw [← halike.closing? d, ← halike.kind, ← halike.lexeme, ← halike.value]
    cases d.closing? t₁ with
    | some closing => exact both_groupRest hinner closing id hready
    | none =>
      cases hk : t₁.kind
      case bar =>
        dsimp only
        split
        · exact both_groupRest hinner .bar Float.abs hready
        · exact both_rejectAt hlevel hfailed
      case rootWord => exact both_rootRest hinner hlevel hready
      case minus => exact (hfactor hready).andThen fun x _ _ h => both_pure h
      case plus => exact hfactor hready
      case number => exact both_pure hready
      case name => exact both_located hlevel hready
      all_goals exact both_rejectAt hlevel hfailed
  · rw [factorAfter_of_stop hd hstop₁, factorAfter_of_stop hd hstop₂]
    exact both_rejectAt (L.level h) (L.failed_of_held h)

end after

/-! ## The readers -/

/-- The readers with budget `n` keep the lockstep. -/
structure KeptWithin (L : Lockstep) (d : Dialect) (b : Bindings) (n : Nat) : Prop where
  factor : ∀ {s₁ s₂}, L.Ready s₁ s₂ →
    L.Both (factorWithin d b n) (factorWithin d b n) s₁ s₂ L.Agreed
  power : ∀ {s₁ s₂}, L.Ready s₁ s₂ →
    L.Both (powerWithin d b n) (powerWithin d b n) s₁ s₂ L.Agreed
  product : ∀ left {s₁ s₂}, L.Ready s₁ s₂ →
    L.Both (productWithin d b n left) (productWithin d b n left) s₁ s₂ L.Agreed
  term : ∀ {s₁ s₂}, L.Ready s₁ s₂ →
    L.Both (termWithin d b n) (termWithin d b n) s₁ s₂ L.Agreed
  sum : ∀ left {s₁ s₂}, L.Ready s₁ s₂ →
    L.Both (sumWithin d b n left) (sumWithin d b n left) s₁ s₂ L.Agreed
  expression : ∀ {s₁ s₂}, L.Ready s₁ s₂ →
    L.Both (expressionWithin d b n) (expressionWithin d b n) s₁ s₂ L.Agreed

/-- A lockstep is kept at every depth of nesting. -/
theorem keptWithin (L : Lockstep) {d : Dialect} (hd : L.KeptBy d) (b : Bindings) (n : Nat) :
    L.KeptWithin d b n := by
  -- Induction on the budget; every reader calls the others with a smaller one.
  induction n with
  | zero =>
    -- both sides are out of budget, in the states that they are in
    constructor <;> intros <;>
      exact ⟨rfl, L.failed_of_ready (by assumption)⟩
  | succ n ih =>
    exact
      { factor := fun h => (both_next h).bind fun _ _ _ _ hheld =>
          both_factorAfter hd ih.expression ih.factor hheld
        power := fun h => (ih.factor h).andThen fun _ _ _ h => (both_next h).bind
          fun _ _ _ _ hheld => both_powerAfter ih.factor hheld
        product := fun _ _ _ h => (both_next h).bind fun _ _ _ _ hheld =>
          both_productAfter ih.power ih.product hheld
        term := fun h => (ih.power h).andThen fun x _ _ h => ih.product x h
        sum := fun _ _ _ h => (both_next h).bind fun _ _ _ _ hheld =>
          both_sumAfter ih.term ih.sum hheld
        expression := fun h => (ih.term h).andThen fun x _ _ h => ih.sum x h }

section statements
variable {d : Dialect} {b : Bindings}

/-- Expressions keep every lockstep. -/
theorem both_expression (hd : L.KeptBy d) (h : L.Ready s₁ s₂) :
    L.Both (expression d b) (expression d b) s₁ s₂ L.Agreed := by
  -- Both scanners are given the larger of their budgets.
  have hbudget (s : Scanner) (hs : s.nestingBudget ≤ max s₁.nestingBudget s₂.nestingBudget) :
      expression d b s = expressionWithin d b (max s₁.nestingBudget s₂.nestingBudget) s :=
    (own_agree d b _).expression s hs
  have hkept := (keptWithin L hd b (max s₁.nestingBudget s₂.nestingBudget)).expression h
  unfold Both at hkept ⊢
  rwa [hbudget s₁ (Nat.le_max_left _ _), hbudget s₂ (Nat.le_max_right _ _)]

theorem both_readClause (hd : L.KeptBy d) (clause : Clause) (h : L.Ready s₁ s₂) :
    L.Both (readClause d b clause) (readClause d b clause) s₁ s₂ L.Agreed := by
  refine (both_expect (by decide) (by decide) h).bind fun name₁ name₂ _ _ h => ?_
  obtain ⟨halike, hready⟩ := h
  rw [halike.lexeme]
  refine (both_expect (by decide) (by decide) hready).bind fun _ _ _ _ h => ?_
  exact (both_expression hd h.2).andThen fun _ _ _ h => both_pure h

/-- Statements behind their first token keep every lockstep. -/
theorem both_statementAfter (hd : L.KeptBy d) (h : L.Held t₁ t₂ s₁ s₂) :
    L.Both (statementAfter d b t₁) (statementAfter d b t₂) s₁ s₂ L.Agreed := by
  have hprint : L.Both (putBack t₁ >>= fun _ => expression d b >>= fun v => pure (Action.print v))
      (putBack t₂ >>= fun _ => expression d b >>= fun v => pure (Action.print v)) s₁ s₂
      L.Agreed :=
    (both_putBack h).bind fun _ _ _ _ h => (both_expression hd h).andThen fun _ _ _ h =>
      both_pure h
  unfold statementAfter
  obtain ⟨halike, hready⟩ | ⟨hstop₁, hstop₂⟩ := L.alike_or_stop h
  · rw [← halike.kind]
    cases t₁.kind
    case letWord | constWord | setWord =>
      exact (both_readClause hd _ hready).andThen fun _ _ _ h => both_pure h
    all_goals exact hprint
  · -- A stop begins no clause, and the expression that is expected there rejects it.
    rcases L.isStop hstop₁ with hk₁ | hk₁ <;> rcases L.isStop hstop₂ with hk₂ | hk₂ <;>
      rw [hk₁, hk₂] <;> exact hprint

end statements

end Lockstep

/-! ## Invariants -/

/-- What a single scanner keeps while it is read from: the relations of a
    lockstep of the scanner with itself. -/
structure Invariant where
  Stop : Token → Prop
  Ready : Scanner → Prop
  Held : Token → Scanner → Prop
  Failed : Scanner → Prop
  get : ∀ {s}, Ready s →
    (∃ t s', s.get = (.ok t, s') ∧ Held t s') ∨ ∃ r s', s.get = (.error r, s') ∧ Failed s'
  held_slot : ∀ {t s}, Held t s → s.slot = none
  ready_hold : ∀ {t s}, Held t s → Ready (s.hold t)
  ready_or_stop : ∀ {t s}, Held t s → Ready s ∨ Stop t
  isStop : ∀ {t}, Stop t → t.IsStop
  failed_of_ready : ∀ {s}, Ready s → Failed s
  failed_of_held : ∀ {t s}, Held t s → Failed s

namespace Invariant

/-- No token is a stop where everything is known behind each of them. -/
theorem isStop_never {t : Token} (h : False) : t.IsStop := h.elim

/-- What a scanner hands out is held as the invariant says. -/
theorem held_of_get {I : Invariant} {s s' : Scanner} {t : Token} (h : I.Ready s)
    (hget : s.get = (.ok t, s')) : I.Held t s' := by
  obtain ⟨u, s₁, hget', hheld⟩ | ⟨r, s₁, hget', -⟩ := I.get h <;> rw [hget] at hget' <;>
    cases hget'
  exact hheld

theorem failed_of_get {I : Invariant} {s s' : Scanner} {r : Rejection} (h : I.Ready s)
    (hget : s.get = (.error r, s')) : I.Failed s' := by
  obtain ⟨u, s₁, hget', -⟩ | ⟨r', s₁, hget', hfailed⟩ := I.get h <;> rw [hget] at hget' <;>
    cases hget'
  exact hfailed

/-- The lockstep of a scanner with itself. -/
def lockstep (I : Invariant) : Lockstep where
  Stop := I.Stop
  Ready s₁ s₂ := s₁ = s₂ ∧ I.Ready s₁
  Held t₁ t₂ s₁ s₂ := t₁ = t₂ ∧ s₁ = s₂ ∧ I.Held t₁ s₁
  Failed s₁ s₂ := s₁ = s₂ ∧ I.Failed s₁
  Level t₁ t₂ := t₁ = t₂
  Rejects r₁ r₂ := r₁ = r₂
  get := by
    rintro s _ ⟨rfl, h⟩
    obtain ⟨t, s', hget, hheld⟩ | ⟨r, s', hget, hfailed⟩ := I.get h
    · exact .inl ⟨t, t, s', s', hget, hget, rfl, rfl, hheld⟩
    · exact .inr ⟨r, r, s', s', hget, hget, rfl, rfl, hfailed⟩
  held_slot := by
    rintro t _ s _ ⟨rfl, rfl, h⟩
    exact ⟨I.held_slot h, I.held_slot h⟩
  ready_hold := by
    rintro t _ s _ ⟨rfl, rfl, h⟩
    exact ⟨rfl, I.ready_hold h⟩
  alike_or_stop := by
    rintro t _ s _ ⟨rfl, rfl, h⟩
    obtain h | h := I.ready_or_stop h
    · exact .inl ⟨.refl t, rfl, h⟩
    · exact .inr ⟨h, h⟩
  isStop := I.isStop
  failed_of_ready h := ⟨h.1, I.failed_of_ready h.2⟩
  failed_of_held h := ⟨h.2.1, I.failed_of_held h.2.2⟩
  level h := h.1
  rejects := by
    rintro t _ s _ cause rfl ⟨rfl, -⟩
    rfl

/-- The invariant holds after a reading. -/
def After (I : Invariant) {α : Type} : EStateM.Result Fault Scanner α → Prop
  | .ok _ s => I.Ready s
  | .error _ s => I.Failed s

theorem after_of_both {I : Invariant} {α : Type} {m : Reading α} {s : Scanner}
    (h : I.lockstep.Both m m s s I.lockstep.Agreed) : I.After (m s) := by
  unfold Lockstep.Both at h
  cases hm : m s with
  | ok a s' =>
    rw [hm] at h
    exact h.2.2
  | error e s' =>
    rw [hm] at h
    exact h.2.2

/-- Reading the rest of a statement keeps every invariant. -/
theorem after_statementAfter {I : Invariant} {d : Dialect} {b : Bindings} {t : Token}
    {s : Scanner} (hd : ∀ t, I.Stop t → d.closing? t = none) (h : I.Held t s) :
    I.After (statementAfter d b t s) :=
  after_of_both (Lockstep.both_statementAfter (L := I.lockstep) hd ⟨rfl, rfl, h⟩)

end Invariant

end Calculator
