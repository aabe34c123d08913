import Calculator.Expression

/-! # Reading an expression makes progress

    Two facts about the readers of expressions, for every dialect, all bindings
    and every state with an empty slot or a full one:

    - They never put a token back into an occupied slot, and they never use up
      their budget: the only faults are rejections and groups that nothing
      closes (`expression_fault_not_internal`).
    - They take at least one token: an expression leaves less to read than there
      was (`ends_expression`).

    `Reading.Ends` is the judgement behind both. It speaks of one state, so that
    the readers can be followed token by token.
-/

namespace Calculator

/-- How much a token adds to what is left to read when it is put back. -/
def Token.weight (t : Token) : Nat := if t.isEnd then 0 else 1

namespace Scanner

theorem remaining_mk_none (cursor : Text.Cursor) (keywords : Keywords) (last : Option Token) :
    remaining ⟨cursor, keywords, none, last⟩ = cursor.rest.length := rfl

theorem remaining_mk_some (cursor : Text.Cursor) (keywords : Keywords) (t : Token)
    (last : Option Token) :
    remaining ⟨cursor, keywords, some t, last⟩ = cursor.rest.length + t.weight := rfl

end Scanner

/-- Whether a fault is due to the readers themselves, not to what they read. -/
def Fault.isInternal : Fault → Bool
  | .slotOccupied _ _ | .budgetExhausted => true
  | .rejected _ | .unclosable _ => false

namespace Reading

variable {α β : Type}

/-! ## The judgement -/

/-- From the state `s`, the reading yields a value and a state that satisfy
    `post`, or it stops with a fault that is not internal; either way at most
    `bound` is left to read. -/
def Ends (m : Reading α) (s : Scanner) (bound : Nat) (post : α → Scanner → Prop) : Prop :=
  match m s with
  | .ok a s' => post a s' ∧ s'.remaining ≤ bound
  | .error e s' => e.isInternal = false ∧ s'.remaining ≤ bound

theorem Ends.bind {m : Reading α} {f : α → Reading β} {s : Scanner} {bound : Nat}
    {mid : α → Scanner → Prop} {post : β → Scanner → Prop} (hm : m.Ends s bound mid)
    (hf : ∀ a s', mid a s' → s'.remaining ≤ bound → (f a).Ends s' bound post) :
    (m >>= f).Ends s bound post := by
  unfold Ends at *
  simp only [Bind.bind, EStateM.bind]
  cases hr : m s with
  | ok a s' =>
    rw [hr] at hm
    exact hf a s' hm.1 hm.2
  | error e s' =>
    rw [hr] at hm
    exact hm

theorem Ends.pure {a : α} {s : Scanner} {bound : Nat} {post : α → Scanner → Prop}
    (h : post a s) (hb : s.remaining ≤ bound) : (Pure.pure a : Reading α).Ends s bound post :=
  ⟨h, hb⟩

theorem Ends.mono {m : Reading α} {s : Scanner} {bound bound' : Nat}
    {post post' : α → Scanner → Prop} (hm : m.Ends s bound post) (hb : bound ≤ bound')
    (h : ∀ a s', post a s' → s'.remaining ≤ bound → post' a s') : m.Ends s bound' post' := by
  unfold Ends at *
  cases hr : m s with
  | ok a s' =>
    rw [hr] at hm
    exact ⟨h a s' hm.1 hm.2, Nat.le_trans hm.2 hb⟩
  | error e s' =>
    rw [hr] at hm
    exact ⟨hm.1, Nat.le_trans hm.2 hb⟩

/-! ## Single tokens -/

/-- Every token but the end of the text is taken out of what is left, and the
    slot is empty afterwards. -/
theorem ends_next (s : Scanner) :
    next.Ends s s.remaining fun t s' =>
      s'.slot = none ∧ s'.remaining + t.weight ≤ s.remaining := by
  obtain ⟨cursor, keywords, slot, last⟩ := s
  unfold Ends next Scanner.get
  cases slot with
  | some t =>
    simp only [Scanner.remaining_mk_some, Scanner.remaining_mk_none]
    exact ⟨⟨trivial, Nat.le_refl _⟩, Nat.le_add_right _ _⟩
  | none =>
    have hscan := Token.length_rest_scan keywords cursor
    dsimp only
    generalize Token.scan keywords cursor = r at hscan
    obtain ⟨outcome, cursor'⟩ := r
    cases outcome with
    | error r =>
      simp only [Scanner.remaining_mk_none]
      exact ⟨rfl, hscan.1⟩
    | ok t =>
      simp only [Except.ok.injEq, exists_eq_left', forall_eq'] at hscan
      simp only [Scanner.remaining_mk_none]
      refine ⟨⟨trivial, ?_⟩, hscan.1⟩
      cases hscan.2 with
      | inl h => simp [Token.weight, h, hscan.1]
      | inr h => simp only [Token.weight, h.1, Bool.false_eq_true, if_false]; omega

/-- Putting a token back into the empty slot succeeds. -/
theorem ends_putBack {t : Token} {s : Scanner} {bound : Nat} (hslot : s.slot = none)
    (hb : s.remaining + t.weight ≤ bound) :
    (putBack t).Ends s bound fun _ s' => s'.slot = some t := by
  obtain ⟨cursor, keywords, slot, last⟩ := s
  cases hslot
  exact ⟨rfl, hb⟩

theorem ends_rejectAt {t : Token} {cause : Cause} {s : Scanner} {bound : Nat}
    {post : α → Scanner → Prop} (hb : s.remaining ≤ bound) :
    (rejectAt t cause : Reading α).Ends s bound post :=
  ⟨rfl, hb⟩

theorem ends_located {t : Token} {r : Except Cause Float} {s : Scanner} {bound : Nat}
    (hb : s.remaining ≤ bound) : (located t r).Ends s bound fun _ s' => s' = s := by
  cases r with
  | ok x => exact ⟨rfl, hb⟩
  | error cause => exact ends_rejectAt hb

theorem ends_expect (kind : Token.Kind) (cause : Cause) (s : Scanner) :
    (expect kind cause).Ends s s.remaining fun _ s' => s'.slot = none := by
  refine (ends_next s).bind fun t s' h hb => ?_
  split
  · exact Ends.pure h.1 hb
  · exact ends_rejectAt hb

theorem ends_expectClosing (kind : Token.Kind) (s : Scanner) :
    (expectClosing kind).Ends s s.remaining fun _ s' => s'.slot = none := by
  unfold expectClosing
  split
  · exact (ends_expect _ _ s).bind fun _ s' h hb => Ends.pure h hb
  · exact ⟨rfl, Nat.le_refl _⟩

theorem ends_divide {t : Token} {x y : Float} {s : Scanner} {bound : Nat}
    (hb : s.remaining ≤ bound) : (divide t x y).Ends s bound fun _ s' => s' = s := by
  unfold divide
  split
  · exact ends_rejectAt hb
  · exact Ends.pure rfl hb

theorem ends_modulo {t : Token} {x y : Float} {s : Scanner} {bound : Nat}
    (hb : s.remaining ≤ bound) : (modulo t x y).Ends s bound fun _ s' => s' = s := by
  unfold modulo
  split
  · exact ends_rejectAt hb
  · exact Ends.pure rfl hb

end Reading

/-! ## Tokens that take a character -/

theorem Token.weight_of_kind {t : Token} (h : t.kind ≠ .quit) : t.weight = 1 := by
  simp [Token.weight, Token.isEnd, h]

theorem Dialect.weight_of_closing? {d : Dialect} {t : Token} {k : Token.Kind}
    (h : d.closing? t = some k) : t.weight = 1 := by
  unfold Dialect.closing? at h
  split at h
  · exact absurd h (by simp)
  · next hend => simp [Token.weight, hend]

/-! ## The readers -/

open Reading

/-- What the six readers do with a given budget, if it is large enough for what
    is left to read. -/
structure WithinBudget (d : Dialect) (b : Bindings) (n : Nat) : Prop where
  factor : ∀ s : Scanner, 4 * s.remaining + 1 ≤ n →
    (factorWithin d b n).Ends s s.remaining fun _ s' =>
      s'.slot = none ∧ s'.remaining < s.remaining
  power : ∀ s : Scanner, 4 * s.remaining + 2 ≤ n →
    (powerWithin d b n).Ends s s.remaining fun _ s' => s'.remaining < s.remaining
  product : ∀ (left : Float) (s : Scanner), 4 * s.remaining + 1 ≤ n →
    (productWithin d b n left).Ends s s.remaining fun _ _ => True
  term : ∀ s : Scanner, 4 * s.remaining + 3 ≤ n →
    (termWithin d b n).Ends s s.remaining fun _ s' => s'.remaining < s.remaining
  sum : ∀ (left : Float) (s : Scanner), 4 * s.remaining + 1 ≤ n →
    (sumWithin d b n left).Ends s s.remaining fun _ _ => True
  expression : ∀ s : Scanner, 4 * s.remaining + 4 ≤ n →
    (expressionWithin d b n).Ends s s.remaining fun _ s' => s'.remaining < s.remaining

namespace WithinBudget

variable {d : Dialect} {b : Bindings} {n : Nat}

/-- A group: the expression in it and the closing token. -/
theorem ends_group (ih : WithinBudget d b n) (closing : Token.Kind) (f : Float → Float)
    {s : Scanner} {bound : Nat} (hn : 4 * s.remaining + 4 ≤ n) (hb : s.remaining < bound) :
    (do
      let x ← expressionWithin d b n
      expectClosing closing
      pure (f x) : Reading Float).Ends s bound fun _ s' =>
        s'.slot = none ∧ s'.remaining < bound := by
  refine ((ih.expression s hn).mono (Nat.le_of_lt hb) fun _ _ h _ => h).bind fun x s₁ h₁ _ => ?_
  refine ((ends_expectClosing closing s₁).mono (by omega) fun _ _ h h' =>
    And.intro h h').bind fun _ s₂ h₂ hb₂ => ?_
  exact Ends.pure ⟨h₂.1, by omega⟩ hb₂

theorem factor_succ (ih : WithinBudget d b n) (s : Scanner) (hn : 4 * s.remaining + 1 ≤ n + 1) :
    (factorWithin d b (n + 1)).Ends s s.remaining fun _ s' =>
      s'.slot = none ∧ s'.remaining < s.remaining := by
  unfold factorWithin
  refine (ends_next s).bind fun t s₁ h₁ hb₁ => ?_
  split
  · next closing hc =>
    have hw := Dialect.weight_of_closing? hc
    exact ih.ends_group closing id (by omega) (by omega)
  · split
    · next hk =>
      have hw := Token.weight_of_kind (t := t) (by simp [hk])
      split
      · exact ih.ends_group .bar Float.abs (by omega) (by omega)
      · exact ends_rejectAt hb₁
    · next hk =>
      have hw := Token.weight_of_kind (t := t) (by simp [hk])
      refine ((ends_expect _ _ s₁).mono hb₁ fun _ _ h h' => And.intro h h').bind
        fun _ s₂ h₂ _ => ?_
      refine ((ih.expression s₂ (by omega)).mono (by omega) fun _ _ h _ => h).bind
        fun x s₃ h₃ hb₃ => ?_
      refine (ends_located hb₃).bind fun _ s₄ h₄ _ => ?_
      subst h₄
      refine ((ends_expectClosing .closeParen s₄).mono hb₃ fun _ _ h h' => And.intro h h').bind
        fun _ s₅ h₅ hb₅ => ?_
      exact Ends.pure ⟨h₅.1, by omega⟩ hb₅
    · next hk =>
      have hw := Token.weight_of_kind (t := t) (by simp [hk])
      refine ((ih.factor s₁ (by omega)).mono hb₁ fun _ _ h _ => h).bind fun x s₂ h₂ hb₂ => ?_
      exact Ends.pure ⟨h₂.1, by omega⟩ hb₂
    · next hk =>
      have hw := Token.weight_of_kind (t := t) (by simp [hk])
      exact (ih.factor s₁ (by omega)).mono hb₁ fun _ _ h _ => ⟨h.1, by omega⟩
    · next hk =>
      have hw := Token.weight_of_kind (t := t) (by simp [hk])
      exact Ends.pure ⟨h₁.1, by omega⟩ hb₁
    · next hk =>
      have hw := Token.weight_of_kind (t := t) (by simp [hk])
      refine (ends_located hb₁).mono (Nat.le_refl _) fun _ s₂ h₂ _ => ?_
      subst h₂
      exact ⟨h₁.1, by omega⟩
    · exact ends_rejectAt hb₁

theorem power_succ (ih : WithinBudget d b n) (s : Scanner) (hn : 4 * s.remaining + 2 ≤ n + 1) :
    (powerWithin d b (n + 1)).Ends s s.remaining fun _ s' => s'.remaining < s.remaining := by
  unfold powerWithin
  refine (ih.factor s (by omega)).bind fun x s₁ h₁ hb₁ => ?_
  refine ((ends_next s₁).mono hb₁ fun _ _ h _ => h).bind fun t s₂ h₂ hb₂ => ?_
  split
  · refine (ends_located hb₂).mono (Nat.le_refl _) fun _ s₃ h₃ _ => ?_
    subst h₃
    omega
  · refine ((ih.factor s₂ (by omega)).mono hb₂ fun _ _ h _ => h).bind fun y s₃ h₃ hb₃ => ?_
    exact Ends.pure (by omega) hb₃
  · refine ((ends_putBack h₂.1 h₂.2).mono (by omega) fun _ _ h h' => h').bind
      fun _ s₃ h₃ hb₃ => ?_
    exact Ends.pure (by omega) hb₃

theorem product_succ (ih : WithinBudget d b n) (left : Float) (s : Scanner)
    (hn : 4 * s.remaining + 1 ≤ n + 1) :
    (productWithin d b (n + 1) left).Ends s s.remaining fun _ _ => True := by
  unfold productWithin
  refine (ends_next s).bind fun t s₁ h₁ hb₁ => ?_
  split
  · next hk =>
    have hw := Token.weight_of_kind (t := t) (by simp [hk])
    refine ((ih.power s₁ (by omega)).mono hb₁ fun _ _ h _ => h).bind fun y s₂ h₂ hb₂ => ?_
    exact (ih.product _ s₂ (by omega)).mono hb₂ fun _ _ h _ => h
  · next hk =>
    have hw := Token.weight_of_kind (t := t) (by simp [hk])
    refine ((ih.power s₁ (by omega)).mono hb₁ fun _ _ h _ => h).bind fun y s₂ h₂ hb₂ => ?_
    refine (ends_divide hb₂).bind fun z s₃ h₃ _ => ?_
    subst h₃
    exact (ih.product _ s₃ (by omega)).mono hb₂ fun _ _ h _ => h
  · next hk =>
    have hw := Token.weight_of_kind (t := t) (by simp [hk])
    refine ((ih.power s₁ (by omega)).mono hb₁ fun _ _ h _ => h).bind fun y s₂ h₂ hb₂ => ?_
    refine (ends_modulo hb₂).bind fun z s₃ h₃ _ => ?_
    subst h₃
    exact (ih.product _ s₃ (by omega)).mono hb₂ fun _ _ h _ => h
  · refine (ends_putBack h₁.1 h₁.2).bind fun _ s₂ _ hb₂ => ?_
    exact Ends.pure trivial hb₂

theorem term_succ (ih : WithinBudget d b n) (s : Scanner) (hn : 4 * s.remaining + 3 ≤ n + 1) :
    (termWithin d b (n + 1)).Ends s s.remaining fun _ s' => s'.remaining < s.remaining := by
  unfold termWithin
  refine (ih.power s (by omega)).bind fun x s₁ h₁ hb₁ => ?_
  exact (ih.product x s₁ (by omega)).mono hb₁ fun _ _ _ h => by omega

theorem sum_succ (ih : WithinBudget d b n) (left : Float) (s : Scanner)
    (hn : 4 * s.remaining + 1 ≤ n + 1) :
    (sumWithin d b (n + 1) left).Ends s s.remaining fun _ _ => True := by
  unfold sumWithin
  refine (ends_next s).bind fun t s₁ h₁ hb₁ => ?_
  split
  · next hk =>
    have hw := Token.weight_of_kind (t := t) (by simp [hk])
    refine ((ih.term s₁ (by omega)).mono hb₁ fun _ _ h _ => h).bind fun y s₂ h₂ hb₂ => ?_
    exact (ih.sum _ s₂ (by omega)).mono hb₂ fun _ _ h _ => h
  · next hk =>
    have hw := Token.weight_of_kind (t := t) (by simp [hk])
    refine ((ih.term s₁ (by omega)).mono hb₁ fun _ _ h _ => h).bind fun y s₂ h₂ hb₂ => ?_
    exact (ih.sum _ s₂ (by omega)).mono hb₂ fun _ _ h _ => h
  · refine (ends_putBack h₁.1 h₁.2).bind fun _ s₂ _ hb₂ => ?_
    exact Ends.pure trivial hb₂

theorem expression_succ (ih : WithinBudget d b n) (s : Scanner)
    (hn : 4 * s.remaining + 4 ≤ n + 1) :
    (expressionWithin d b (n + 1)).Ends s s.remaining fun _ s' =>
      s'.remaining < s.remaining := by
  unfold expressionWithin
  refine (ih.term s (by omega)).bind fun x s₁ h₁ hb₁ => ?_
  exact (ih.sum x s₁ (by omega)).mono hb₁ fun _ _ _ h => by omega

end WithinBudget

/-- Every budget that is large enough for what is left to read suffices. -/
theorem withinBudget (d : Dialect) (b : Bindings) (n : Nat) : WithinBudget d b n := by
  induction n with
  | zero => constructor <;> intros <;> omega
  | succ n ih =>
    exact ⟨ih.factor_succ, ih.power_succ, ih.product_succ, ih.term_succ, ih.sum_succ,
      ih.expression_succ⟩

/-! ## Expressions -/

theorem ends_expression (d : Dialect) (b : Bindings) (s : Scanner) :
    (expression d b).Ends s s.remaining fun _ s' => s'.remaining < s.remaining :=
  (withinBudget d b s.nestingBudget).expression s (Nat.le_refl _)

/-- Reading an expression stops at nothing but a rejection or a group that
    nothing closes. -/
theorem expression_fault_not_internal {d : Dialect} {b : Bindings} {s s' : Scanner} {e : Fault}
    (h : expression d b s = .error e s') : e.isInternal = false := by
  have hs := ends_expression d b s
  rw [Ends, h] at hs
  exact hs.1

end Calculator
