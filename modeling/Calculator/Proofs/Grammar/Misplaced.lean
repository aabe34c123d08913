import Calculator.Proofs.Grammar.Blame
import Calculator.Proofs.Grammar.Goals
import Calculator.Proofs.Reading.Places

/-! # The first token that cannot be right

    An error of the grammar is found as soon as it can be: the tokens in front of
    the reported one begin a derivation of the tier that is read, and no derivation
    begins with them and goes on with that token (`expression_misreads`). The token
    is the last one that was read.

    The proof is an induction on the budget, beside that of `withinSound`. Errors
    of other sorts, which depend on values, are left aside.
-/

namespace Calculator

open CrossCheck (Tier SumOp ProductOp)
open Goal Reading Scanner

variable {d : Dialect} {b : Bindings}

/-! ## Misplaced tokens -/

/-- The tokens `ts` begin a derivation for the tier. Taken against the goals of the
    tier, with any others behind them, they leave none that the token `t` meets. -/
structure Misplaced (d : Dialect) (tier : Tier) (ts : List Token) (t : Token) : Prop where
  begins : ∃ (T : Tree d tier) (us : List Token), T.yield = ts ++ us
  stuck : ∀ gs, takeAll d (ts ++ [t]) (ofTier tier ++ gs) = none

/-- What opens a group can be closed. -/
theorem Dialect.Opens.exists_tree {t : Token} {k : Token.Kind} (h : d.Opens t k)
    (T : Tree d .expression) :
    ∃ (F : Tree d .factor) (closing : Token), F.yield = t :: (T.yield ++ [closing]) := by
  obtain h | ⟨hc, hk, habsolute, -⟩ := h
  · exact ⟨.group t T ⟨k, "", 0, -1⟩ h, _, rfl⟩
  · exact ⟨.bars habsolute ⟨t, hk, hc⟩ T ⟨⟨.bar, "|", 0, -1⟩, rfl⟩, _, rfl⟩

/-- There is a factor in every dialect whose brackets are among those of the full
    one, for there a number opens no group. -/
theorem Dialect.GroupsWithin.nonempty_factor (hd : d.GroupsWithin .full) :
    Nonempty (Tree d .factor) := by
  have hplain : d.closing? ⟨.number, "0", 0, -1⟩ = none := hd.closing?_eq_none rfl
  exact ⟨.number ⟨_, rfl, hplain⟩⟩

namespace Misplaced

variable {tier : Tier} {ts : List Token} {t opening : Token} {k : Token.Kind}

/-- No derivation goes on with the token. -/
theorem not_yield (hd : d.Closable) (h : Misplaced d tier ts t) (T : Tree d tier)
    (us : List Token) : T.yield ≠ ts ++ t :: us := by
  intro hyield
  have htaken := takeAll_yield hd T []
  rw [hyield, List.append_cons, takeAll_append, h.stuck] at htaken
  cases htaken

/-! ### Factors -/

theorem factor (hd : d.GroupsWithin .full) (h : behindFirst? d t = none) :
    Misplaced d .factor [] t := by
  obtain ⟨F⟩ := hd.nonempty_factor
  refine ⟨⟨F, _, rfl⟩, fun gs => takeAll_cons_of_none ?_⟩
  rw [ofTier, List.singleton_append, take, h]
  rfl

theorem group (opens : d.Opens opening k) (inner : Misplaced d .expression ts t) :
    Misplaced d .factor (opening :: ts) t := by
  obtain ⟨T, us, hT⟩ := inner.begins
  obtain ⟨F, closing, hF⟩ := opens.exists_tree T
  refine ⟨⟨F, us ++ [closing], by simp [hF, hT]⟩, fun gs => ?_⟩
  refine (takeAll_cons_of_some (take_factor (behindFirst?_of_opens opens))).trans ?_
  rw [List.append_assoc]
  exact inner.stuck _

/-- Behind an expression that it does not extend, only the closing token is met. -/
theorem takeAll_closing (hd : d.Closable) {T : Tree d .expression} (stops : ¬ T.CanExtend t)
    (other : t.kind ≠ k) (gs : List Goal) :
    takeAll d (T.yield ++ [t]) (ofTier .expression ++ [.token k] ++ gs) = none := by
  rw [List.append_assoc, takeAll_append_of_some (takeAll_yield hd T _)]
  refine takeAll_cons_of_none ((take_of_not_canExtend stops).trans ?_)
  exact if_neg other

theorem closing (hd : d.Closable) (opens : d.Opens opening k) {T : Tree d .expression}
    (stops : ¬ T.CanExtend t) (other : t.kind ≠ k) :
    Misplaced d .factor (opening :: T.yield) t := by
  obtain ⟨F, closing, hF⟩ := opens.exists_tree T
  refine ⟨⟨F, [closing], by simp [hF]⟩, fun gs => ?_⟩
  exact (takeAll_cons_of_some (take_factor (behindFirst?_of_opens opens))).trans
    (takeAll_closing hd stops other gs)

section root
variable (word : d.Plain .rootWord)

theorem behindFirst?_root : behindFirst? d word.val =
    some (.token .openParen :: (ofTier .expression ++ [.token .closeParen])) := by
  rw [behindFirst?, word.2.2, word.2.1]

theorem argument (hd : d.GroupsWithin .full) (other : t.kind ≠ .openParen) :
    Misplaced d .factor [word.val] t := by
  obtain ⟨F⟩ := hd.nonempty_factor
  refine ⟨⟨.root word ⟨⟨.openParen, "(", 0, -1⟩, rfl⟩ (.term (.power (.factor F)))
    ⟨⟨.closeParen, ")", 0, -1⟩, rfl⟩, _, rfl⟩, fun gs => ?_⟩
  refine (takeAll_cons_of_some (take_factor (behindFirst?_root word))).trans ?_
  exact takeAll_cons_of_none (if_neg other)

variable (opening : Token.Of .openParen)

theorem takeAll_root (us : List Token) (gs : List Goal) :
    takeAll d (word.val :: opening.val :: us) (.factor :: gs) =
      takeAll d us (ofTier .expression ++ [.token .closeParen] ++ gs) :=
  (takeAll_cons_of_some (take_factor (behindFirst?_root word))).trans
    (takeAll_cons_of_some (if_pos opening.2))

theorem radicand (inner : Misplaced d .expression ts t) :
    Misplaced d .factor (word.val :: opening.val :: ts) t := by
  obtain ⟨T, us, hT⟩ := inner.begins
  let closing : Token.Of .closeParen := ⟨⟨.closeParen, ")", 0, -1⟩, rfl⟩
  refine ⟨⟨.root word opening T closing, us ++ [closing.val], by simp [Tree.yield, hT]⟩,
    fun gs => (takeAll_root word opening _ gs).trans ?_⟩
  rw [List.append_assoc]
  exact inner.stuck _

theorem rootClosing (hd : d.Closable) {T : Tree d .expression} (stops : ¬ T.CanExtend t)
    (other : t.kind ≠ .closeParen) :
    Misplaced d .factor (word.val :: opening.val :: T.yield) t := by
  refine ⟨⟨.root word opening T ⟨⟨.closeParen, ")", 0, -1⟩, rfl⟩, [_], rfl⟩, fun gs => ?_⟩
  exact (takeAll_root word opening _ gs).trans (takeAll_closing hd stops other gs)

end root

theorem signed {sign : Token} (plain : d.closing? sign = none)
    (sign_kind : sign.kind = .minus ∨ sign.kind = .plus) (inner : Misplaced d .factor ts t) :
    Misplaced d .factor (sign :: ts) t := by
  obtain ⟨F, us, hF⟩ := inner.begins
  have hfirst : behindFirst? d sign = some [.factor] := by
    rw [behindFirst?, plain]
    obtain hk | hk := sign_kind <;> rw [hk]
  have hbegins : ∃ G : Tree d .factor, G.yield = sign :: F.yield := by
    obtain hk | hk := sign_kind
    · exact ⟨.negated ⟨sign, hk, plain⟩ F, rfl⟩
    · exact ⟨.signed ⟨sign, hk, plain⟩ F, rfl⟩
  obtain ⟨G, hG⟩ := hbegins
  refine ⟨⟨G, us, by rw [hG, hF]; rfl⟩, fun gs => ?_⟩
  exact (takeAll_cons_of_some (take_factor hfirst)).trans (inner.stuck gs)

/-! ### Operators -/

theorem base (h : Misplaced d .factor ts t) : Misplaced d .power ts t := by
  obtain ⟨F, us, hF⟩ := h.begins
  exact ⟨⟨.factor F, us, hF⟩, fun gs => h.stuck (.mark :: gs)⟩

theorem power (h : Misplaced d .power ts t) : Misplaced d .term ts t := by
  obtain ⟨T, us, hT⟩ := h.begins
  exact ⟨⟨.power T, us, hT⟩, fun gs => h.stuck (.sign :: gs)⟩

theorem term (h : Misplaced d .term ts t) : Misplaced d .expression ts t := by
  obtain ⟨T, us, hT⟩ := h.begins
  exact ⟨⟨.term T, us, hT⟩, h.stuck⟩

theorem exponent (hd : d.Closable) (x : Tree d .factor) (mark : Token.Of .caret)
    (inner : Misplaced d .factor ts t) : Misplaced d .power (x.yield ++ mark.val :: ts) t := by
  obtain ⟨F, us, hF⟩ := inner.begins
  refine ⟨⟨.raised x mark F, us, by simp [Tree.yield, hF]⟩, fun gs => ?_⟩
  rw [List.append_assoc]
  refine (takeAll_append_of_some (takeAll_yield hd x (.mark :: gs))).trans ?_
  exact (takeAll_cons_of_some (take_caret mark.2)).trans (inner.stuck gs)

theorem operand (hd : d.Closable) (x : Tree d .term) (op : ProductOp) (sign : Token.Of op.kind)
    (inner : Misplaced d .power ts t) : Misplaced d .term (x.yield ++ sign.val :: ts) t := by
  obtain ⟨T, us, hT⟩ := inner.begins
  refine ⟨⟨.product x op sign T, us, by simp [Tree.yield, hT]⟩, fun gs => ?_⟩
  rw [List.append_assoc]
  refine (takeAll_append_of_some (takeAll_yield hd x gs)).trans ?_
  exact (takeAll_cons_of_some (take_productOp x sign.2)).trans (inner.stuck (.sign :: gs))

theorem addend (hd : d.Closable) (x : Tree d .expression) (op : SumOp) (sign : Token.Of op.kind)
    (inner : Misplaced d .term ts t) : Misplaced d .expression (x.yield ++ sign.val :: ts) t := by
  obtain ⟨T, us, hT⟩ := inner.begins
  refine ⟨⟨.sum x op sign T, us, by simp [Tree.yield, hT]⟩, fun gs => ?_⟩
  rw [List.append_assoc]
  refine (takeAll_append_of_some (takeAll_yield hd x gs)).trans ?_
  exact (takeAll_cons_of_some (take_sumOp x sign.2)).trans (inner.stuck gs)

end Misplaced

/-! ## Errors of the grammar -/

/-- If the rejection `r`, with which a reading that began in `s` ends in `s'`, is an
    error of the grammar, the last token that was read is reported, and `M` holds of
    it and of those in front of it. -/
def Misreads (M : List Token → Token → Prop) (s : Scanner) (r : Rejection) (s' : Scanner) : Prop :=
  r.cause.category = .grammar → ∃ ts t, s.Gives (ts ++ [t]) s' ∧
    r.place = some ⟨s'.cursor.line, t.column⟩ ∧ M ts t

section misreads
variable {M M' : List Token → Token → Prop} {s s₁ s' : Scanner} {r : Rejection}
  {us : List Token} {t : Token}

/-- There may be other tokens in front. -/
theorem Misreads.of_gives (hus : s.Gives us s₁) (hM : ∀ ts t, M ts t → M' (us ++ ts) t)
    (h : Misreads M s₁ r s') : Misreads M' s r s' := by
  intro hr
  obtain ⟨ts, t, hgives, hplace, hts⟩ := h hr
  refine ⟨us ++ ts, t, ?_, hplace, hM ts t hts⟩
  rw [List.append_assoc]
  exact gives_append.2 ⟨s₁, hus, hgives⟩

theorem Misreads.of_get (ht : s.get = (.ok t, s₁)) (hM : ∀ ts u, M ts u → M' (t :: ts) u)
    (h : Misreads M s₁ r s') : Misreads M' s r s' := by
  have hone : s.Gives [t] s₁ := gives_singleton.2 ht
  exact h.of_gives hone hM

theorem Misreads.mono (h : Misreads M s r s') (hM : ∀ ts t, M ts t → M' ts t) :
    Misreads M' s r s' := by
  have hnone : s.Gives [] s := gives_nil.2 rfl
  exact h.of_gives hnone hM

/-- The last token that was read is the misplaced one. -/
theorem misreads_last {cause : Cause} (hgives : s.Gives (us ++ [t]) s') (h : M us t) :
    Misreads M s ⟨cause, some ⟨s'.cursor.line, t.column⟩⟩ s' :=
  fun _ => ⟨us, t, hgives, rfl, h⟩

/-- A character that begins no token is an error of another sort. -/
theorem misreads_of_get (h : s.get = (.error r, s')) : Misreads M s₁ r s' := by
  intro hr
  obtain ⟨-, -, -, x, after, -, -, hcause | hcause⟩ := get_error_place h <;>
    rw [hcause] at hr <;> cases hr

/-- So is an operation without a value. -/
theorem misreads_of_located {v : Except Cause Float}
    (h : located t v s = .error (.rejected r) s') (hv : ∀ cause, v = .error cause →
      cause.category ≠ .grammar) : Misreads M s₁ r s' := by
  intro hr
  obtain ⟨cause, hcause, rfl, -⟩ := located_eq_rejected h
  exact absurd hr (hv cause hcause)

end misreads

theorem category_of_factorial {x : Float} {cause : Cause} (h : factorial x = .error cause) :
    cause.category ≠ .grammar := by
  unfold factorial at h
  split at h <;> cases h <;> nofun

/-! ## The readers -/

/-- The readers with budget `n` find an error of the grammar at the first token that
    cannot be right. A continued sum or product has the tree of its value so far in
    front. -/
structure WithinMisreads (d : Dialect) (b : Bindings) (n : Nat) : Prop where
  factor : ∀ {s r s'}, factorWithin d b n s = .error (.rejected r) s' →
    Misreads (Misplaced d .factor) s r s'
  power : ∀ {s r s'}, powerWithin d b n s = .error (.rejected r) s' →
    Misreads (Misplaced d .power) s r s'
  product : ∀ {s₀ s r s' left} (X : Tree d .term), X.Behind s₀ s →
    productWithin d b n left s = .error (.rejected r) s' → Misreads (Misplaced d .term) s₀ r s'
  term : ∀ {s r s'}, termWithin d b n s = .error (.rejected r) s' →
    Misreads (Misplaced d .term) s r s'
  sum : ∀ {s₀ s r s' left} (X : Tree d .expression), X.Behind s₀ s →
    sumWithin d b n left s = .error (.rejected r) s' → Misreads (Misplaced d .expression) s₀ r s'
  expression : ∀ {s r s'}, expressionWithin d b n s = .error (.rejected r) s' →
    Misreads (Misplaced d .expression) s r s'

namespace WithinMisreads

variable {n : Nat} {s s₀ s₁ s' : Scanner} {r : Rejection} {t : Token} {left : Float}

/-! ### Factors -/

/-- What stands behind an expression does not extend it, so if it does not close the
    group either, nothing can be done with it. -/
theorem closing {M : List Token → Token → Prop} {k : Token.Kind} {T : Tree d .expression}
    (hbehind : T.Behind s s₁) (hstops : T.StopsAt s₁)
    (h : expectClosing k s₁ = .error (.rejected r) s')
    (hM : ∀ t, ¬ T.CanExtend t → t.kind ≠ k → M T.yield t) : Misreads M s r s' := by
  obtain ⟨u, s₂, hu, -, hnot⟩ := hstops
  obtain h | ⟨t, bracket, ht, hk, -, rfl⟩ := expectClosing_eq_rejected h
  · rw [hu] at h
    cases h
  · rw [hu] at ht
    cases ht
    exact misreads_last (hbehind.append hu) (hM u hnot hk)

theorem group (ih : WithinMisreads d b n) (hd : d.Closable) {k : Token.Kind} {f : Float → Float}
    (ht : s.get = (.ok t, s₁)) (opens : d.Opens t k)
    (h : groupRest (expressionWithin d b n) k f s₁ = .error (.rejected r) s') :
    Misreads (Misplaced d .factor) s r s' := by
  obtain h | ⟨x, s₂, hx, h⟩ := bind_eq_error.1 h
  · exact (ih.expression h).of_get ht fun _ _ => .group opens
  · obtain ⟨T, hT⟩ := (withinSound d b n).expression hx
    obtain h | ⟨_, s₃, -, h⟩ := bind_eq_error.1 h
    · exact (closing (M := fun ts u => Misplaced d .factor (t :: ts) u) hT.behind hT.stops h
        fun _ => .closing hd opens).of_get ht fun _ _ h => h
    · cases h

theorem root (ih : WithinMisreads d b n) (hd : d.GroupsWithin .full) (ht : s.get = (.ok t, s₁))
    (hk : t.kind = .rootWord) (hc : d.closing? t = none)
    (h : rootRest (expressionWithin d b n) t s₁ = .error (.rejected r) s') :
    Misreads (Misplaced d .factor) s r s' := by
  have hone : s.Gives [t] s₁ := gives_singleton.2 ht
  obtain h | ⟨opening, s₂, hopening, h⟩ := bind_eq_error.1 h
  · obtain h | ⟨u, hu, hku, rfl⟩ := expect_eq_rejected h
    · exact misreads_of_get h
    · have hgives : s.Gives ([t] ++ [u]) s' := ⟨s₁, ht, gives_singleton.2 hu⟩
      exact misreads_last hgives (.argument ⟨t, hk, hc⟩ hd hku)
  · obtain ⟨hopening, hko⟩ := expect_eq_ok.1 hopening
    have hfront : s.Gives [t, opening] s₂ := ⟨s₁, ht, gives_singleton.2 hopening⟩
    obtain h | ⟨x, s₃, hx, h⟩ := bind_eq_error.1 h
    · exact (ih.expression h).of_gives hfront fun _ _ => .radicand ⟨t, hk, hc⟩ ⟨opening, hko⟩
    · obtain ⟨T, hT⟩ := (withinSound d b n).expression hx
      obtain hfails | ⟨y, s₄, hy, hrest⟩ := bind_eq_error.1 h
      · refine misreads_of_located hfails fun cause hcause => ?_
        rw [(squareRoot_eq_error hcause).2]
        nofun
      · obtain ⟨-, rfl⟩ := located_eq_ok.1 hy
        obtain hclosing | ⟨_, s₅, -, hend⟩ := bind_eq_error.1 hrest
        · exact (closing (M := fun ts u => Misplaced d .factor (t :: opening :: ts) u) hT.behind
            hT.stops hclosing fun _ => .rootClosing ⟨t, hk, hc⟩ ⟨opening, hko⟩ hd.closable).of_gives
              hfront fun _ _ h => h
        · cases hend

theorem factorAfter (ih : WithinMisreads d b n) (hd : d.GroupsWithin .full)
    (ht : s.get = (.ok t, s₁))
    (h : Calculator.factorAfter d b (expressionWithin d b n) (factorWithin d b n) t s₁ =
      .error (.rejected r) s') : Misreads (Misplaced d .factor) s r s' := by
  -- A token that begins no factor is the last one that was read.
  have hnone {cause : Cause} (hfirst : behindFirst? d t = none) :
      Misreads (Misplaced d .factor) s ⟨cause, some ⟨s₁.cursor.line, t.column⟩⟩ s₁ := by
    have hone : s.Gives ([] ++ [t]) s₁ := gives_singleton.2 ht
    exact misreads_last hone (.factor hd hfirst)
  unfold Calculator.factorAfter at h
  cases hc : d.closing? t with
  | some closing =>
    rw [hc] at h
    exact ih.group hd.closable ht (.inl hc) h
  | none =>
    rw [hc] at h
    cases hk : t.kind <;> rw [hk] at h
    case bar =>
      dsimp only at h
      split at h
      · next habsolute => exact ih.group hd.closable ht (.inr ⟨hc, hk, habsolute, rfl⟩) h
      · next habsolute =>
        cases h
        exact hnone (by rw [behindFirst?, hc, hk]; exact if_neg habsolute)
    case rootWord => exact ih.root hd ht hk hc h
    case minus =>
      obtain h | ⟨x, s₂, -, h⟩ := bind_eq_error.1 h
      · exact (ih.factor h).of_get ht fun _ _ => .signed hc (.inl hk)
      · cases h
    case plus => exact (ih.factor h).of_get ht fun _ _ => .signed hc (.inr hk)
    case name =>
      refine misreads_of_located h fun cause hcause => ?_
      rw [(Bindings.get_eq_error.1 hcause).2]
      intro hgrammar
      cases hgrammar
    case number => cases h
    all_goals
      cases h
      exact hnone (by rw [behindFirst?, hc, hk])

theorem factor_succ (ih : WithinMisreads d b n) (hd : d.GroupsWithin .full)
    (h : factorWithin d b (n + 1) s = .error (.rejected r) s') :
    Misreads (Misplaced d .factor) s r s' := by
  rw [factorWithin_succ] at h
  obtain h | ⟨t, s₁, ht, h⟩ := bind_eq_error.1 h
  · exact misreads_of_get (next_eq_rejected.1 h)
  · exact ih.factorAfter hd (next_eq_ok.1 ht) h

/-! ### Operators -/

theorem power_succ (ih : WithinMisreads d b n) (hd : d.Closable)
    (h : powerWithin d b (n + 1) s = .error (.rejected r) s') :
    Misreads (Misplaced d .power) s r s' := by
  rw [powerWithin_succ] at h
  obtain h | ⟨x, s₁, hx, h⟩ := bind_eq_error.1 h
  · exact (ih.factor h).mono fun _ _ => .base
  · obtain ⟨T, hT⟩ := (withinSound d b n).factor hx
    obtain h | ⟨t, s₂, ht, h⟩ := bind_eq_error.1 h
    · exact misreads_of_get (next_eq_rejected.1 h)
    · have hgives := hT.behind.append (next_eq_ok.1 ht)
      by_cases hpost : t.kind.IsPostfix
      · unfold powerAfter at h
        rcases hpost with hk | hk <;> rw [hk] at h
        · exact misreads_of_located h fun _ => category_of_factorial
        · obtain h | ⟨y, s₃, -, h⟩ := bind_eq_error.1 h
          · refine (ih.factor h).of_gives hgives fun ts u hinner => ?_
            rw [← List.append_cons]
            exact hinner.exponent hd T ⟨t, hk⟩
          · cases h
      · rw [powerAfter_of_other hpost] at h
        exact absurd h putBack_pure_ne_rejected

theorem product_succ (ih : WithinMisreads d b n) (hd : d.Closable) (X : Tree d .term)
    (hbehind : X.Behind s₀ s) (h : productWithin d b (n + 1) left s = .error (.rejected r) s') :
    Misreads (Misplaced d .term) s₀ r s' := by
  rw [productWithin_succ] at h
  obtain h | ⟨t, s₁, ht, h⟩ := bind_eq_error.1 h
  · exact misreads_of_get (next_eq_rejected.1 h)
  · rw [next_eq_ok] at ht
    by_cases hop : ∃ op : ProductOp, t.kind = op.kind
    · obtain ⟨op, hk⟩ := hop
      rw [productAfter_of_op hk] at h
      obtain h | ⟨y, s₂, hy, h⟩ := bind_eq_error.1 h
      · refine (ih.power h).of_gives (hbehind.append ht) fun ts u hinner => ?_
        rw [← List.append_cons]
        exact hinner.operand hd X op ⟨t, hk⟩
      · obtain ⟨Y, hY⟩ := (withinSound d b n).power hy
        obtain hfails | ⟨z, s₃, hz, hmore⟩ := bind_eq_error.1 h
        · refine misreads_of_located hfails fun cause hcause => ?_
          obtain ⟨-, ⟨-, rfl⟩ | ⟨-, rfl⟩⟩ := productOp_apply_eq_error hcause <;> decide
        · obtain ⟨-, rfl⟩ := located_eq_ok.1 hz
          exact ih.product (.product X op ⟨t, hk⟩ Y) (hbehind.append_cons ht hY.behind) hmore
    · rw [productAfter_of_other fun op hk => hop ⟨op, hk⟩] at h
      exact absurd h putBack_pure_ne_rejected

theorem term_succ (ih : WithinMisreads d b n)
    (h : termWithin d b (n + 1) s = .error (.rejected r) s') :
    Misreads (Misplaced d .term) s r s' := by
  rw [termWithin_succ] at h
  obtain h | ⟨x, s₁, hx, h⟩ := bind_eq_error.1 h
  · exact (ih.power h).mono fun _ _ => .power
  · obtain ⟨T, hT⟩ := (withinSound d b n).power hx
    exact ih.product (.power T) hT.behind h

theorem sum_succ (ih : WithinMisreads d b n) (hd : d.Closable) (X : Tree d .expression)
    (hbehind : X.Behind s₀ s) (h : sumWithin d b (n + 1) left s = .error (.rejected r) s') :
    Misreads (Misplaced d .expression) s₀ r s' := by
  rw [sumWithin_succ] at h
  obtain h | ⟨t, s₁, ht, h⟩ := bind_eq_error.1 h
  · exact misreads_of_get (next_eq_rejected.1 h)
  · rw [next_eq_ok] at ht
    by_cases hop : ∃ op : SumOp, t.kind = op.kind
    · obtain ⟨op, hk⟩ := hop
      rw [sumAfter_of_op hk] at h
      obtain h | ⟨y, s₂, hy, h⟩ := bind_eq_error.1 h
      · refine (ih.term h).of_gives (hbehind.append ht) fun ts u hinner => ?_
        rw [← List.append_cons]
        exact hinner.addend hd X op ⟨t, hk⟩
      · obtain ⟨Y, hY⟩ := (withinSound d b n).term hy
        exact ih.sum (.sum X op ⟨t, hk⟩ Y) (hbehind.append_cons ht hY.behind) h
    · rw [sumAfter_of_other fun op hk => hop ⟨op, hk⟩] at h
      exact absurd h putBack_pure_ne_rejected

theorem expression_succ (ih : WithinMisreads d b n)
    (h : expressionWithin d b (n + 1) s = .error (.rejected r) s') :
    Misreads (Misplaced d .expression) s r s' := by
  rw [expressionWithin_succ] at h
  obtain h | ⟨x, s₁, hx, h⟩ := bind_eq_error.1 h
  · exact (ih.term h).mono fun _ _ => .term
  · obtain ⟨T, hT⟩ := (withinSound d b n).term hx
    exact ih.sum (.term T) hT.behind h

end WithinMisreads

theorem withinMisreads (hd : d.GroupsWithin .full) (b : Bindings) (n : Nat) :
    WithinMisreads d b n := by
  -- Without a budget the fault is no rejection.
  induction n with
  | zero => constructor <;> intros <;> rename_i h <;> cases h
  | succ n ih =>
    exact ⟨ih.factor_succ hd, ih.power_succ hd.closable, ih.product_succ hd.closable,
      ih.term_succ, ih.sum_succ hd.closable, ih.expression_succ⟩

/-- An error of the grammar in an expression is found at the first token that cannot
    be right. -/
theorem expression_misreads (hd : d.GroupsWithin .full) {s s' : Scanner} {r : Rejection}
    (h : expression d b s = .error (.rejected r) s') :
    Misreads (Misplaced d .expression) s r s' :=
  (withinMisreads hd b s.nestingBudget).expression h

end Calculator
