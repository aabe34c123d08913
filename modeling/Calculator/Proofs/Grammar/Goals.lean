import Calculator.Proofs.Grammar.Offence

/-! # What is still to come

    While an expression is read, what is still to come is a list of goals: a
    factor, an operator that may be left out, or a token of a given kind. A token
    is taken against the goals, and there is one way at most to do so
    (`Goal.take`). Every derivation is taken from beginning to end
    (`Goal.takeAll_yield`). So a token that cannot be taken begins no continuation
    of what stands in front of it, whatever the rest of the derivation is
    (`Misplaced.not_yield`).
-/

namespace Calculator

open CrossCheck (Tier SumOp ProductOp)

/-- What has to come, or may come, in an expression. -/
inductive Goal where
  | factor
  /-- An operator behind a factor, which may be left out. -/
  | mark
  /-- An operator in front of the next operand, which may be left out. -/
  | sign
  | token (k : Token.Kind)

namespace Goal

/-- The goals for a tier. Terms and expressions have the same ones: they differ in
    how the operands are grouped. -/
def ofTier : Tier → List Goal
  | .factor => [factor]
  | .power => [factor, mark]
  | .term | .expression => [factor, mark, sign]

/-- What may come behind a power that has a postfix operator or has none. -/
def behindPower (closed : Bool) : List Goal := if closed then [] else [mark]

/-- What may come behind a tree of a tier, whose last power has a postfix operator or
    has none. -/
def behind : Tier → (closed : Bool) → List Goal
  | .factor, _ => []
  | .power, closed => behindPower closed
  | .term, closed | .expression, closed => behindPower closed ++ [sign]

/-- The goals behind the first token of a factor; none if it begins no factor. -/
def behindFirst? (d : Dialect) (t : Token) : Option (List Goal) :=
  match d.closing? t with
  | some k => some (ofTier .expression ++ [token k])
  | none =>
    match t.kind with
    | .bar => if d.absoluteValue then some (ofTier .expression ++ [token .bar]) else none
    | .rootWord => some (token .openParen :: (ofTier .expression ++ [token .closeParen]))
    | .minus | .plus => some [factor]
    | .number | .name => some []
    | _ => none

/-- The goals that are left behind a token; none if it meets none of them. -/
def take (d : Dialect) (t : Token) : List Goal → Option (List Goal)
  | [] => none
  | factor :: gs => (behindFirst? d t).map (· ++ gs)
  | mark :: gs =>
    match t.kind with
    | .bang => some gs
    | .caret => some (factor :: gs)
    | _ => take d t gs
  | sign :: gs =>
    match t.kind with
    | .plus | .minus | .star | .slash | .percent => some (ofTier .expression ++ gs)
    | _ => take d t gs
  | token k :: gs => if t.kind = k then some gs else none

/-- The goals that are left behind some tokens. -/
def takeAll (d : Dialect) : List Token → List Goal → Option (List Goal)
  | [], gs => some gs
  | t :: ts, gs => (take d t gs).bind (takeAll d ts)

variable {d : Dialect} {t : Token} {ts us : List Token} {gs hs : List Goal}

theorem takeAll_append (ts us : List Token) (gs : List Goal) :
    takeAll d (ts ++ us) gs = (takeAll d ts gs).bind (takeAll d us) := by
  induction ts generalizing gs with
  | nil => rfl
  | cons t ts ih =>
    show (take d t gs).bind (takeAll d (ts ++ us)) = ((take d t gs).bind (takeAll d ts)).bind _
    cases take d t gs with
    | none => rfl
    | some hs => exact ih hs

theorem takeAll_append_of_some (h : takeAll d ts gs = some hs) :
    takeAll d (ts ++ us) gs = takeAll d us hs := by
  rw [takeAll_append, h]
  rfl

theorem takeAll_cons_of_some (h : take d t gs = some hs) :
    takeAll d (t :: ts) gs = takeAll d ts hs := by
  rw [takeAll, h]
  rfl

theorem takeAll_cons_of_none (h : take d t gs = none) : takeAll d (t :: ts) gs = none := by
  rw [takeAll, h]
  rfl

/-! ## Single tokens -/

theorem take_factor {front : List Goal} (h : behindFirst? d t = some front) :
    take d t (factor :: gs) = some (front ++ gs) :=
  congrArg (Option.map (· ++ gs)) h

theorem take_mark : take d t (mark :: gs) =
    match t.kind with
    | .bang => some gs
    | .caret => some (factor :: gs)
    | _ => take d t gs := rfl

theorem take_bang (h : t.kind = .bang) : take d t (mark :: gs) = some gs := by
  rw [take_mark, h]

theorem take_caret (h : t.kind = .caret) : take d t (mark :: gs) = some (factor :: gs) := by
  rw [take_mark, h]

theorem take_mark_of_other (h : ¬ t.kind.IsPostfix) : take d t (mark :: gs) = take d t gs := by
  rw [take_mark]
  split
  · next hk => exact absurd (.inl hk) h
  · next hk => exact absurd (.inr hk) h
  · rfl

theorem take_sign : take d t (sign :: gs) =
    match t.kind with
    | .plus | .minus | .star | .slash | .percent => some (ofTier .expression ++ gs)
    | _ => take d t gs := rfl

theorem take_sign_of_sumOp {op : SumOp} (h : t.kind = op.kind) :
    take d t (sign :: gs) = some (ofTier .expression ++ gs) := by
  rw [take_sign, h]
  cases op <;> rfl

theorem take_sign_of_productOp {op : ProductOp} (h : t.kind = op.kind) :
    take d t (sign :: gs) = some (ofTier .expression ++ gs) := by
  rw [take_sign, h]
  cases op <;> rfl

theorem take_sign_of_other (hsum : ∀ op : SumOp, t.kind ≠ op.kind)
    (hproduct : ∀ op : ProductOp, t.kind ≠ op.kind) : take d t (sign :: gs) = take d t gs := by
  rw [take_sign]
  split
  · next hk => exact absurd hk (hsum .add)
  · next hk => exact absurd hk (hsum .sub)
  · next hk => exact absurd hk (hproduct .mul)
  · next hk => exact absurd hk (hproduct .div)
  · next hk => exact absurd hk (hproduct .mod)
  · rfl

theorem behindFirst?_of_opens {k : Token.Kind} (h : d.Opens t k) :
    behindFirst? d t = some (ofTier .expression ++ [token k]) := by
  unfold behindFirst?
  obtain h | ⟨h, hk, habsolute, rfl⟩ := h
  · rw [h]
  · rw [h, hk, habsolute]
    rfl

end Goal

/-! ## Derivations -/

section derivations
variable {d : Dialect} {t : Token} {gs : List Goal}

open Goal

/-- A token that is no postfix operator, or stands behind one already, passes over
    the place of a postfix operator. -/
theorem Goal.take_behindPower {closed : Bool} (h : closed = false → ¬ t.kind.IsPostfix) :
    take d t (behindPower closed ++ gs) = take d t gs := by
  cases closed with
  | true => rfl
  | false => exact take_mark_of_other (h rfl)

/-- A sign behind a term or an expression asks for an operand. -/
theorem Goal.take_productOp (T : Tree d .term) {op : ProductOp} (h : t.kind = op.kind) :
    take d t (behind .term T.closed ++ gs) = some (ofTier .expression ++ gs) := by
  have hmark : ¬ t.kind.IsPostfix := by
    rw [h]
    cases op <;> simp [ProductOp.kind, Token.Kind.IsPostfix]
  rw [behind, List.append_assoc, take_behindPower fun _ => hmark]
  exact take_sign_of_productOp h

theorem Goal.take_sumOp (T : Tree d .expression) {op : SumOp} (h : t.kind = op.kind) :
    take d t (behind .expression T.closed ++ gs) = some (ofTier .expression ++ gs) := by
  have hmark : ¬ t.kind.IsPostfix := by
    rw [h]
    cases op <;> simp [SumOp.kind, Token.Kind.IsPostfix]
  rw [behind, List.append_assoc, take_behindPower fun _ => hmark]
  exact take_sign_of_sumOp h

/-- A token that does not extend an expression has to meet what comes behind it. -/
theorem Goal.take_of_not_canExtend {T : Tree d .expression} (h : ¬ T.CanExtend t) :
    take d t (behind .expression T.closed ++ gs) = take d t gs := by
  have hmark : T.closed = false → ¬ t.kind.IsPostfix := fun hclosed hk =>
    h (.inl (.inl ⟨hclosed, hk⟩))
  rw [behind, List.append_assoc, take_behindPower hmark]
  exact take_sign_of_other (fun op hk => h (.inr ⟨op, hk⟩))
    fun op hk => h (.inl (.inr ⟨op, hk⟩))

/-- A derivation is taken from beginning to end: it meets the goals of its tier, and
    leaves what may come behind it. -/
theorem Goal.takeAll_yield (hd : d.Closable) {tier : Tier} (T : Tree d tier) (gs : List Goal) :
    takeAll d T.yield (ofTier tier ++ gs) = some (behind tier T.closed ++ gs) := by
  -- An expression in a group ends in front of the closing token, which does not extend it.
  have hgroup {inner : Tree d .expression} {closing : Token}
      (ih : ∀ gs, takeAll d inner.yield (ofTier .expression ++ gs) =
        some (behind .expression inner.closed ++ gs))
      (hclosing : closing.kind.closingBracket?.isSome) (gs : List Goal) :
      takeAll d (inner.yield ++ [closing])
        (ofTier .expression ++ [token closing.kind] ++ gs) = some gs := by
    have hmeets : take d closing ([token closing.kind] ++ gs) = some gs := if_pos rfl
    have hnot : ¬ inner.CanExtend closing := not_canExtend_of_closing inner hclosing
    rw [List.append_assoc, takeAll_append_of_some (ih _)]
    exact takeAll_cons_of_some ((take_of_not_canExtend hnot).trans hmeets)
  induction T generalizing gs with
  | number t =>
    have hfirst : behindFirst? d t.val = some [] := by rw [behindFirst?, t.2.2, t.2.1]
    exact takeAll_cons_of_some (take_factor hfirst)
  | name t =>
    have hfirst : behindFirst? d t.val = some [] := by rw [behindFirst?, t.2.2, t.2.1]
    exact takeAll_cons_of_some (take_factor hfirst)
  | group opening inner closing paired ih =>
    exact (takeAll_cons_of_some (take_factor (behindFirst?_of_opens (.inl paired)))).trans
      (hgroup ih (hd _ _ paired) gs)
  | bars enabled opening inner closing ih =>
    have hopens : d.Opens opening.val closing.val.kind :=
      .inr ⟨opening.2.2, opening.2.1, enabled, closing.2⟩
    exact (takeAll_cons_of_some (take_factor (behindFirst?_of_opens hopens))).trans
      (hgroup ih (by rw [closing.2]; rfl) gs)
  | root word opening inner closing ih =>
    have hfirst : behindFirst? d word.val =
        some (token .openParen :: (ofTier .expression ++ [token .closeParen])) := by
      rw [behindFirst?, word.2.2, word.2.1]
    have hopening : take d opening.val (token .openParen ::
        (ofTier .expression ++ [token .closeParen]) ++ gs) =
        some (ofTier .expression ++ [token .closeParen] ++ gs) := if_pos opening.2
    refine (takeAll_cons_of_some (take_factor hfirst)).trans
      ((takeAll_cons_of_some hopening).trans ?_)
    have hbracket : closing.val.kind.closingBracket?.isSome := by rw [closing.2]; rfl
    have hclosing := hgroup ih hbracket gs
    rwa [closing.2] at hclosing
  | negated sign x ih =>
    have hfirst : behindFirst? d sign.val = some [factor] := by
      rw [behindFirst?, sign.2.2, sign.2.1]
    exact (takeAll_cons_of_some (take_factor hfirst)).trans (ih gs)
  | signed sign x ih =>
    have hfirst : behindFirst? d sign.val = some [factor] := by
      rw [behindFirst?, sign.2.2, sign.2.1]
    exact (takeAll_cons_of_some (take_factor hfirst)).trans (ih gs)
  | factor x ih => exact ih (mark :: gs)
  | factorial x mark ih =>
    exact (takeAll_append_of_some (ih _)).trans (takeAll_cons_of_some (take_bang mark.2))
  | raised x mark y ihx ihy =>
    refine (takeAll_append_of_some (ihx _)).trans ?_
    exact (takeAll_cons_of_some (take_caret mark.2)).trans (ihy gs)
  | power x ih =>
    refine (ih (sign :: gs)).trans ?_
    rw [behind, behind, List.append_assoc]
    rfl
  | product x op sign y ihx ihy =>
    refine (takeAll_append_of_some (ihx gs)).trans ?_
    refine (takeAll_cons_of_some (take_productOp x sign.2)).trans ((ihy (.sign :: gs)).trans ?_)
    rw [behind, behind, List.append_assoc]
    rfl
  | term x ih => exact ih gs
  | sum x op sign y ihx ihy =>
    refine (takeAll_append_of_some (ihx gs)).trans ?_
    exact (takeAll_cons_of_some (take_sumOp x sign.2)).trans (ihy gs)

end derivations

end Calculator
