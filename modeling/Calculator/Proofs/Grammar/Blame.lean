import Calculator.Proofs.Bindings.Changes
import Calculator.Proofs.Grammar.Offence

/-! # The token to blame

    Whatever rejects an expression is an offence among the tokens that were read,
    or a character behind them that begins no token (`expression_blames`). An
    error is found after the tokens that it depends on were read, and one more
    may have been read by then; the column of the rejection is that of the token
    to blame all the same.

    The proof is an induction on the budget, beside that of `withinSound`: what
    was read before the error consists of trees, and the error is in the part
    behind them.
-/

namespace Calculator

open CrossCheck (Tier SumOp ProductOp)
open Reading Scanner

variable {d : Dialect} {b : Bindings}

/-! ## Blame -/

/-- A reading that began in `s` ends in `s'` with the rejection `r` for good
    reason: the tokens read are an offence as `O` says, and the place of the
    rejection is the column of the token to blame on the line that was read last,
    or behind some tokens there is a character that begins none. -/
inductive Blames (O : List Token → Token → Cause → Prop) (s : Scanner) :
    Rejection → Scanner → Prop where
  | character {ts : List Token} {s₁ s' : Scanner} {r : Rejection} (given : s.Gives ts s₁)
      (plain : ∀ t ∈ ts, t.kind ≠ .terminator) (rejected : s₁.get = (.error r, s')) :
    Blames O s r s'
  | token {ts : List Token} {t : Token} {cause : Cause} {s₁ s' : Scanner}
      (given : s.Gives ts s₁) (offence : O ts t cause) :
    Blames O s ⟨cause, some ⟨s'.cursor.line, t.column⟩⟩ s'

/-- There may be other tokens in front. -/
theorem Blames.of_gives {O O' : List Token → Token → Cause → Prop} {s s₁ s' : Scanner}
    {r : Rejection} {us : List Token} (hus : s.Gives us s₁)
    (plain : ∀ t ∈ us, t.kind ≠ .terminator)
    (hO : ∀ ts t cause, O ts t cause → O' (us ++ ts) t cause) (h : Blames O s₁ r s') :
    Blames O' s r s' := by
  cases h with
  | character given plain' rejected =>
    refine .character (gives_append.2 ⟨s₁, hus, given⟩) (fun t ht => ?_) rejected
    exact (List.mem_append.1 ht).elim (plain t) (plain' t)
  | token given offence => exact .token (gives_append.2 ⟨s₁, hus, given⟩) (hO _ _ _ offence)

/-- There may be one other token in front. -/
theorem Blames.of_get {O O' : List Token → Token → Cause → Prop} {s s₁ s' : Scanner}
    {r : Rejection} {u : Token} (hu : s.get = (.ok u, s₁)) (plain : u.kind ≠ .terminator)
    (hO : ∀ ts t cause, O ts t cause → O' (u :: ts) t cause) (h : Blames O s₁ r s') :
    Blames O' s r s' := by
  have hone : s.Gives [u] s₁ := gives_singleton.2 hu
  exact h.of_gives hone (by simpa using plain) hO

theorem Blames.mono {O O' : List Token → Token → Cause → Prop} {s s' : Scanner} {r : Rejection}
    (h : Blames O s r s') (hO : ∀ ts t cause, O ts t cause → O' ts t cause) : Blames O' s r s' := by
  have hnone : s.Gives [] s := gives_nil.2 rfl
  exact h.of_gives hnone (by simp) hO

/-! ## Single tokens -/

section single
variable {s s' : Scanner} {r : Rejection} {t : Token}

theorem next_eq_rejected : next s = .error (.rejected r) s' ↔ s.get = (.error r, s') := by
  unfold next
  split <;> simp_all

theorem located_eq_rejected {v : Except Cause Float}
    (h : located t v s = .error (.rejected r) s') :
    ∃ cause, v = .error cause ∧ r = ⟨cause, some ⟨s.cursor.line, t.column⟩⟩ ∧ s' = s := by
  cases v with
  | ok x => cases h
  | error cause => cases h; exact ⟨cause, rfl, rfl, rfl⟩

theorem putBack_pure_ne_rejected {x : Float} :
    (Reading.putBack t >>= fun _ => (pure x : Reading Float)) s ≠ .error (.rejected r) s' := by
  intro h
  obtain ⟨_, h⟩ := putBack_pure_eq_error h
  cases h

/-- Where a token is expected there may be none, or another one. -/
theorem expect_eq_rejected {kind : Token.Kind} {cause : Cause}
    (h : expect kind cause s = .error (.rejected r) s') :
    s.get = (.error r, s') ∨ ∃ t, s.get = (.ok t, s') ∧ t.kind ≠ kind ∧
      r = ⟨cause, some ⟨s'.cursor.line, t.column⟩⟩ := by
  obtain h | ⟨t, s₁, ht, h⟩ := bind_eq_error.1 h
  · exact .inl (next_eq_rejected.1 h)
  · split at h
    · cases h
    · next hk =>
      cases h
      exact .inr ⟨t, next_eq_ok.1 ht, hk, rfl⟩

theorem expectClosing_eq_rejected {kind : Token.Kind}
    (h : expectClosing kind s = .error (.rejected r) s') :
    s.get = (.error r, s') ∨ ∃ t bracket, s.get = (.ok t, s') ∧ t.kind ≠ kind ∧
      kind.closingBracket? = some bracket ∧
      r = ⟨.missingClosing bracket, some ⟨s'.cursor.line, t.column⟩⟩ := by
  unfold expectClosing at h
  cases hb : kind.closingBracket? with
  | none => rw [hb] at h; cases h
  | some bracket =>
    rw [hb] at h
    obtain h | ⟨u, s₁, -, h⟩ := bind_eq_error.1 h
    · obtain h | ⟨t, ht, hk, hr⟩ := expect_eq_rejected h
      · exact .inl h
      · exact .inr ⟨t, bracket, ht, hk, rfl, hr⟩
    · cases h

end single

/-! ## The domains of operations -/

theorem squareRoot_eq_error {x : Float} {cause : Cause} (h : squareRoot x = .error cause) :
    x < 0 ∧ cause = .negativeRoot x := by
  unfold squareRoot at h
  split at h
  · next hx => cases h; exact ⟨hx, rfl⟩
  · cases h

theorem not_lt_of_squareRoot_eq_ok {x y : Float} (h : squareRoot x = .ok y) : ¬ x < 0 := by
  unfold squareRoot at h
  split at h
  · cases h
  · next hx => exact hx

/-- Only a division or a remainder by zero has no value. -/
theorem productOp_apply_eq_error {op : ProductOp} {x y : Float} {cause : Cause}
    (h : op.apply x y = .error cause) :
    (y == 0) = true ∧
      (op = .div ∧ cause = .divisionByZero ∨ op = .mod ∧ cause = .moduloByZero) := by
  cases op <;> simp only [ProductOp.apply] at h
  case mul => cases h
  case div =>
    split at h
    · next hy => cases h; exact ⟨hy, .inl ⟨rfl, rfl⟩⟩
    · cases h
  case mod =>
    split at h
    · next hy => cases h; exact ⟨hy, .inr ⟨rfl, rfl⟩⟩
    · cases h

/-! ## The readers -/

theorem ne_terminator_of_inExpression {k : Token.Kind} (h : k.inExpression) : k ≠ .terminator := by
  rintro rfl
  cases h

theorem Tree.ne_terminator_append (hd : d.GroupsWithin .full) {tier : Tier} (T : Tree d tier)
    {t : Token} (h : t.kind.inExpression) : ∀ u ∈ T.yield ++ [t], u.kind ≠ .terminator := by
  intro u hu
  refine ne_terminator_of_inExpression ?_
  obtain hu | hu := List.mem_append.1 hu
  · exact T.inExpression_of_mem hd u hu
  · rwa [List.mem_singleton.1 hu]

/-- A character behind a tree begins no token. -/
theorem Tree.Behind.blames (hd : d.GroupsWithin .full) {tier : Tier} {T : Tree d tier}
    {s s₁ s' : Scanner} {r : Rejection} (hT : T.Behind s s₁) (h : s₁.get = (.error r, s')) :
    Blames (fun _ _ _ => False) s r s' := by
  obtain ⟨s₂, hyield, hget⟩ := hT
  exact .character hyield
    (fun t ht => ne_terminator_of_inExpression (T.inExpression_of_mem hd t ht)) (hget ▸ h)

/-- The readers with budget `n` are stopped by what is to blame. A continued
    sum or product has the tree of its value so far in front. -/
structure WithinBlames (d : Dialect) (b : Bindings) (n : Nat) : Prop where
  factor : ∀ {s r s'}, factorWithin d b n s = .error (.rejected r) s' →
    Blames (Offence d b .factor) s r s'
  power : ∀ {s r s'}, powerWithin d b n s = .error (.rejected r) s' →
    Blames (Offence d b .power) s r s'
  product : ∀ {s₀ s r s' left} (X : Tree d .term), X.value b = .ok left → X.Behind s₀ s →
    productWithin d b n left s = .error (.rejected r) s' → Blames (Offence d b .term) s₀ r s'
  term : ∀ {s r s'}, termWithin d b n s = .error (.rejected r) s' →
    Blames (Offence d b .term) s r s'
  sum : ∀ {s₀ s r s' left} (X : Tree d .expression), X.value b = .ok left → X.Behind s₀ s →
    sumWithin d b n left s = .error (.rejected r) s' → Blames (Offence d b .expression) s₀ r s'
  expression : ∀ {s r s'}, expressionWithin d b n s = .error (.rejected r) s' →
    Blames (Offence d b .expression) s r s'

namespace WithinBlames

variable {n : Nat} {s s₀ s₁ s' : Scanner} {r : Rejection} {t : Token} {left : Float}

/-! ### Factors -/

/-- A group is stopped inside, or the token behind its expression does not close
    it. -/
theorem group (ih : WithinBlames d b n) (hd : d.GroupsWithin .full) {k : Token.Kind}
    {f : Float → Float} (ht : s.get = (.ok t, s₁)) (opens : d.Opens t k)
    (h : groupRest (expressionWithin d b n) k f s₁ = .error (.rejected r) s') :
    Blames (Offence d b .factor) s r s' := by
  have hplain := ne_terminator_of_inExpression (opens.inExpression hd)
  obtain h | ⟨x, s₂, hx, h⟩ := bind_eq_error.1 h
  · exact (ih.expression h).of_get ht hplain fun _ _ _ => .group opens
  · obtain ⟨T, hT⟩ := (withinSound d b n).expression hx
    obtain h | ⟨_, s₃, -, h⟩ := bind_eq_error.1 h
    · obtain h | ⟨u, bracket, hu, hk, hb, rfl⟩ := expectClosing_eq_rejected h
      · exact (hT.behind.blames hd h).of_get ht hplain fun _ _ _ => False.elim
      · have hgives : s.Gives (t :: (T.yield ++ [u])) s' := ⟨s₁, ht, hT.behind.append hu⟩
        exact .token hgives (.closing opens hT.value hk hb)
    · cases h

/-- A root is stopped where its parenthesis is missing, inside it, at a negative
    number, or where it should be closed. -/
theorem root (ih : WithinBlames d b n) (hd : d.GroupsWithin .full) (ht : s.get = (.ok t, s₁))
    (hk : t.kind = .rootWord) (hc : d.closing? t = none)
    (h : rootRest (expressionWithin d b n) t s₁ = .error (.rejected r) s') :
    Blames (Offence d b .factor) s r s' := by
  have hplain : t.kind ≠ .terminator := by rw [hk]; decide
  obtain h | ⟨opening, s₂, hopening, h⟩ := bind_eq_error.1 h
  · obtain h | ⟨u, hu, hku, rfl⟩ := expect_eq_rejected h
    · exact .character (gives_singleton.2 ht) (by simpa using hplain) h
    · have hgives : s.Gives [t, u] s' := ⟨s₁, ht, gives_singleton.2 hu⟩
      exact .token hgives (.argument ⟨t, hk, hc⟩ hku)
  · obtain ⟨hopening, hko⟩ := expect_eq_ok.1 hopening
    have hfront : s.Gives [t, opening] s₂ := ⟨s₁, ht, gives_singleton.2 hopening⟩
    have hplains : ∀ u ∈ [t, opening], u.kind ≠ .terminator := by simp [hk, hko]
    obtain h | ⟨x, s₃, hx, h⟩ := bind_eq_error.1 h
    · exact (ih.expression h).of_gives hfront hplains
        fun _ _ _ => .radicand ⟨t, hk, hc⟩ ⟨opening, hko⟩
    · obtain ⟨T, hT⟩ := (withinSound d b n).expression hx
      obtain hfails | ⟨y, s₄, hy, hrest⟩ := bind_eq_error.1 h
      · -- The root is taken before the parenthesis behind the expression is asked for.
        obtain ⟨cause, hroot, rfl, rfl⟩ := located_eq_rejected hfails
        obtain ⟨hnegative, rfl⟩ := squareRoot_eq_error hroot
        obtain ⟨s₅, hyield, -⟩ := hT.behind
        have hgives : s.Gives (t :: opening :: T.yield) s₅ := ⟨s₁, ht, s₂, hopening, hyield⟩
        exact .token hgives (.root ⟨t, hk, hc⟩ ⟨opening, hko⟩ hT.value hnegative)
      · obtain ⟨hroot, rfl⟩ := located_eq_ok.1 hy
        obtain hclosing | ⟨_, s₅, -, hrest⟩ := bind_eq_error.1 hrest
        · obtain h | ⟨u, bracket, hu, hku, hb, rfl⟩ := expectClosing_eq_rejected hclosing
          · exact (hT.behind.blames hd h).of_gives hfront hplains fun _ _ _ => False.elim
          · cases hb
            have hgives : s.Gives (t :: opening :: (T.yield ++ [u])) s' :=
              ⟨s₁, ht, s₂, hopening, hT.behind.append hu⟩
            exact .token hgives (.rootClosing ⟨t, hk, hc⟩ ⟨opening, hko⟩ hT.value
              (not_lt_of_squareRoot_eq_ok hroot) hku)
        · cases hrest

/-- A factor is stopped at its first token, or where the rule that begins with it
    is stopped. -/
theorem factorAfter (ih : WithinBlames d b n) (hd : d.GroupsWithin .full)
    (ht : s.get = (.ok t, s₁))
    (h : Calculator.factorAfter d b (expressionWithin d b n) (factorWithin d b n) t s₁ =
      .error (.rejected r) s') : Blames (Offence d b .factor) s r s' := by
  have hone : s.Gives [t] s₁ := gives_singleton.2 ht
  unfold Calculator.factorAfter at h
  cases hc : d.closing? t with
  | some closing =>
    rw [hc] at h
    exact ih.group hd ht (.inl hc) h
  | none =>
    rw [hc] at h
    have hopens {k : Token.Kind} (hbar : t.kind ≠ .bar ∨ d.absoluteValue = false) :
        ¬ d.Opens t k := by
      rintro (hk | ⟨-, hk, habsolute, -⟩)
      · rw [hc] at hk
        cases hk
      · rw [hk, habsolute] at hbar
        simp at hbar
    cases hk : t.kind <;> rw [hk] at h
    case bar =>
      dsimp only at h
      split at h
      · next habsolute => exact ih.group hd ht (.inr ⟨hc, hk, habsolute, rfl⟩) h
      · next habsolute =>
        cases h
        exact .token hone (.factor (fun _ => hopens (.inr (by simpa using habsolute)))
          (by rw [hk]; rfl))
    case rootWord => exact ih.root hd ht hk hc h
    case minus =>
      obtain h | ⟨x, s₂, -, h⟩ := bind_eq_error.1 h
      · exact (ih.factor h).of_get ht (by rw [hk]; decide) fun _ _ _ => .signed hc (.inl hk)
      · cases h
    case plus =>
      exact (ih.factor h).of_get ht (by rw [hk]; decide) fun _ _ _ => .signed hc (.inr hk)
    case name =>
      obtain ⟨cause, hname, rfl, rfl⟩ := located_eq_rejected h
      obtain ⟨hfind, rfl⟩ := Bindings.get_eq_error.1 hname
      exact .token hone (.name ⟨t, hk, hc⟩ hfind)
    case number => cases h
    all_goals
      cases h
      exact .token hone (.factor (fun _ => hopens (.inl (by rw [hk]; decide))) (by rw [hk]; rfl))

theorem factor_succ (ih : WithinBlames d b n) (hd : d.GroupsWithin .full)
    (h : factorWithin d b (n + 1) s = .error (.rejected r) s') :
    Blames (Offence d b .factor) s r s' := by
  rw [factorWithin_succ] at h
  obtain h | ⟨t, s₁, ht, h⟩ := bind_eq_error.1 h
  · exact .character (gives_nil.2 rfl) (by simp) (next_eq_rejected.1 h)
  · exact ih.factorAfter hd (next_eq_ok.1 ht) h

/-! ### Powers -/

theorem power_succ (ih : WithinBlames d b n) (hd : d.GroupsWithin .full)
    (h : powerWithin d b (n + 1) s = .error (.rejected r) s') :
    Blames (Offence d b .power) s r s' := by
  rw [powerWithin_succ] at h
  obtain h | ⟨x, s₁, hx, h⟩ := bind_eq_error.1 h
  · exact (ih.factor h).mono fun _ _ _ => .base
  · obtain ⟨T, hT⟩ := (withinSound d b n).factor hx
    obtain h | ⟨t, s₂, ht, h⟩ := bind_eq_error.1 h
    · exact (hT.behind.blames hd (next_eq_rejected.1 h)).mono fun _ _ _ => False.elim
    · have hgives := hT.behind.append (next_eq_ok.1 ht)
      by_cases hpost : t.kind.IsPostfix
      · unfold powerAfter at h
        rcases hpost with hk | hk <;> rw [hk] at h
        · obtain ⟨cause, hfactorial, rfl, rfl⟩ := located_eq_rejected h
          exact .token hgives (.factorial ⟨t, hk⟩ hT.value hfactorial)
        · obtain h | ⟨y, s₃, -, h⟩ := bind_eq_error.1 h
          · refine (ih.factor h).of_gives hgives (T.ne_terminator_append hd (by rw [hk]; rfl)) ?_
            intro ts u cause hinner
            rw [← List.append_cons]
            exact .exponent ⟨t, hk⟩ hT.value hinner
          · cases h
      · rw [powerAfter_of_other hpost] at h
        exact absurd h putBack_pure_ne_rejected

/-! ### Terms -/

theorem product_succ (ih : WithinBlames d b n) (hd : d.GroupsWithin .full) (X : Tree d .term)
    (hX : X.value b = .ok left) (hbehind : X.Behind s₀ s)
    (h : productWithin d b (n + 1) left s = .error (.rejected r) s') :
    Blames (Offence d b .term) s₀ r s' := by
  rw [productWithin_succ] at h
  obtain h | ⟨t, s₁, ht, h⟩ := bind_eq_error.1 h
  · exact (hbehind.blames hd (next_eq_rejected.1 h)).mono fun _ _ _ => False.elim
  · rw [next_eq_ok] at ht
    by_cases hop : ∃ op : ProductOp, t.kind = op.kind
    · obtain ⟨op, hk⟩ := hop
      have hin : t.kind.inExpression := by rw [hk]; cases op <;> rfl
      rw [productAfter_of_op hk] at h
      obtain h | ⟨y, s₂, hy, h⟩ := bind_eq_error.1 h
      · refine (ih.power h).of_gives (hbehind.append ht) (X.ne_terminator_append hd hin) ?_
        intro ts u cause hinner
        rw [← List.append_cons]
        exact .operand op ⟨t, hk⟩ hX hinner
      · obtain ⟨Y, hY⟩ := (withinSound d b n).power hy
        obtain hfails | ⟨z, s₃, hz, hmore⟩ := bind_eq_error.1 h
        · -- The divisor has been read, and the operator in front of it is blamed.
          obtain ⟨cause, hoperation, rfl, rfl⟩ := located_eq_rejected hfails
          obtain ⟨hzero, hcause⟩ := productOp_apply_eq_error hoperation
          obtain ⟨s₄, hgives, -⟩ := hbehind.append_cons ht hY.behind
          exact .token hgives (.divisor op ⟨t, hk⟩ hX hY.value hzero hcause)
        · obtain ⟨hvalue, rfl⟩ := located_eq_ok.1 hz
          exact ih.product (.product X op ⟨t, hk⟩ Y)
            ((Tree.value_product hX hY.value).trans hvalue) (hbehind.append_cons ht hY.behind) hmore
    · rw [productAfter_of_other fun op hk => hop ⟨op, hk⟩] at h
      exact absurd h putBack_pure_ne_rejected

theorem term_succ (ih : WithinBlames d b n)
    (h : termWithin d b (n + 1) s = .error (.rejected r) s') :
    Blames (Offence d b .term) s r s' := by
  rw [termWithin_succ] at h
  obtain h | ⟨x, s₁, hx, h⟩ := bind_eq_error.1 h
  · exact (ih.power h).mono fun _ _ _ => .power
  · obtain ⟨T, hT⟩ := (withinSound d b n).power hx
    exact ih.product (.power T) hT.value hT.behind h

/-! ### Expressions -/

theorem sum_succ (ih : WithinBlames d b n) (hd : d.GroupsWithin .full) (X : Tree d .expression)
    (hX : X.value b = .ok left) (hbehind : X.Behind s₀ s)
    (h : sumWithin d b (n + 1) left s = .error (.rejected r) s') :
    Blames (Offence d b .expression) s₀ r s' := by
  rw [sumWithin_succ] at h
  obtain h | ⟨t, s₁, ht, h⟩ := bind_eq_error.1 h
  · exact (hbehind.blames hd (next_eq_rejected.1 h)).mono fun _ _ _ => False.elim
  · rw [next_eq_ok] at ht
    by_cases hop : ∃ op : SumOp, t.kind = op.kind
    · obtain ⟨op, hk⟩ := hop
      have hin : t.kind.inExpression := by rw [hk]; cases op <;> rfl
      rw [sumAfter_of_op hk] at h
      obtain h | ⟨y, s₂, hy, h⟩ := bind_eq_error.1 h
      · refine (ih.term h).of_gives (hbehind.append ht) (X.ne_terminator_append hd hin) ?_
        intro ts u cause hinner
        rw [← List.append_cons]
        exact .addend op ⟨t, hk⟩ hX hinner
      · obtain ⟨Y, hY⟩ := (withinSound d b n).term hy
        exact ih.sum (.sum X op ⟨t, hk⟩ Y) (Tree.value_sum hX hY.value)
          (hbehind.append_cons ht hY.behind) h
    · rw [sumAfter_of_other fun op hk => hop ⟨op, hk⟩] at h
      exact absurd h putBack_pure_ne_rejected

theorem expression_succ (ih : WithinBlames d b n)
    (h : expressionWithin d b (n + 1) s = .error (.rejected r) s') :
    Blames (Offence d b .expression) s r s' := by
  rw [expressionWithin_succ] at h
  obtain h | ⟨x, s₁, hx, h⟩ := bind_eq_error.1 h
  · exact (ih.term h).mono fun _ _ _ => .term
  · obtain ⟨T, hT⟩ := (withinSound d b n).term hx
    exact ih.sum (.term T) hT.value hT.behind h

end WithinBlames

theorem withinBlames (hd : d.GroupsWithin .full) (b : Bindings) (n : Nat) :
    WithinBlames d b n := by
  -- Without a budget the fault is no rejection.
  induction n with
  | zero => constructor <;> intros <;> rename_i h <;> cases h
  | succ n ih =>
    exact ⟨ih.factor_succ hd, ih.power_succ hd, ih.product_succ hd, ih.term_succ,
      ih.sum_succ hd, ih.expression_succ⟩

/-- An expression is rejected for its first error, at the token to blame, or at a
    character that begins no token. -/
theorem expression_blames (hd : d.GroupsWithin .full) {s s' : Scanner} {r : Rejection}
    (h : expression d b s = .error (.rejected r) s') :
    Blames (Offence d b .expression) s r s' :=
  (withinBlames hd b s.nestingBudget).expression h

end Calculator
