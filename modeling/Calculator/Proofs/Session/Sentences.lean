import Calculator.Proofs.Grammar.Yield
import Calculator.Proofs.Session.Faults

/-! # What a statement consists of

    A statement that is read is a sentence of the grammar of statements, and the
    slot is left with the first token behind it (`Session.statement_ok`). There are
    two reasons only why a statement is not carried out, and neither of them lies
    with the readers (`Session.statement_error`). Nothing is assumed of the dialect
    and of the state, in which the slot may be full or empty.

    In the other direction, every sentence that a statement can end behind is read
    (`readStatement_of_sentence`).
-/

namespace Calculator

open Reading Scanner

variable {d : Dialect} {b : Bindings}

/-! ## Sentences -/

/-- The tokens of a statement and the action that it asks for. -/
inductive Sentence (d : Dialect) (b : Bindings) : List Token → Action → Prop where
  | letClause {word name sign : Token} {T : Tree d .expression} {v : Float}
      (hword : word.kind = .letWord) (hname : name.kind = .name) (hsign : sign.kind = .equals)
      (value : T.value b = .ok v) :
    Sentence d b (word :: name :: sign :: T.yield) (.declare name.lexeme v false)
  | constClause {word name sign : Token} {T : Tree d .expression} {v : Float}
      (hword : word.kind = .constWord) (hname : name.kind = .name) (hsign : sign.kind = .equals)
      (value : T.value b = .ok v) :
    Sentence d b (word :: name :: sign :: T.yield) (.declare name.lexeme v true)
  | setClause {word name sign : Token} {T : Tree d .expression} {v : Float}
      (hword : word.kind = .setWord) (hname : name.kind = .name) (hsign : sign.kind = .equals)
      (value : T.value b = .ok v) :
    Sentence d b (word :: name :: sign :: T.yield) (.assign name.lexeme v)
  | print {T : Tree d .expression} {v : Float} (value : T.value b = .ok v) :
    Sentence d b T.yield (.print v)

/-- From `s` on the tokens `ts` were taken, and in `r` the one behind them is in
    the slot. -/
def Scanner.Peeked (s : Scanner) (ts : List Token) (r : Scanner) : Prop :=
  ∃ t s', s.Gives (ts ++ [t]) s' ∧ r = s'.hold t

/-- What can stop a reading that began in `s` and ended in `r`: the statement is
    rejected, or there is a group that nothing closes. -/
def Fault.Foreseen (d : Dialect) (b : Bindings) (s : Scanner) (r : Scanner) : Fault → Prop
  | .rejected _ => True
  | .unclosable k => Unclosed d b s k r
  | .slotOccupied _ _ | .budgetExhausted => False

section reading
variable {s s₁ r : Scanner} {t : Token} {ts : List Token} {v : Float}

theorem Scanner.Peeked.of_get (ht : s.get = (.ok t, s₁)) (h : s₁.Peeked ts r) :
    s.Peeked (t :: ts) r := by
  obtain ⟨u, s', hgives, hr⟩ := h
  exact ⟨u, s', ⟨s₁, ht, hgives⟩, hr⟩

/-- Only the next token of a scanner matters. -/
theorem Scanner.Peeked.of_get_eq (h : s₁.Peeked ts r) (hget : s.get = s₁.get) :
    s.Peeked ts r := by
  obtain ⟨u, s', hgives, hr⟩ := h
  exact ⟨u, s', hgives.of_get_eq (by simp) hget, hr⟩

/-- The token behind an expression that was read is in the slot. -/
theorem Tree.Took.peeked {T : Tree d .expression} (h : T.Took b s v r) : s.Peeked T.yield r := by
  obtain ⟨t, s', ht, hr, -⟩ := h.stops
  exact ⟨t, s', h.behind.append ht, hr⟩

theorem expression_ok (h : expression d b s = .ok v r) :
    ∃ T : Tree d .expression, T.value b = .ok v ∧ s.Peeked T.yield r := by
  obtain ⟨T, hT⟩ := took_expression h
  exact ⟨T, hT.value, hT.peeked⟩

theorem Fault.foreseen_of_not_internal {e : Fault} (h : e.isInternal = false)
    (hunclosed : ∀ k, e = .unclosable k → Unclosed d b s k r) : e.Foreseen d b s r := by
  cases e with
  | rejected => trivial
  | unclosable k => exact hunclosed k rfl
  | slotOccupied | budgetExhausted => cases h

theorem expression_error {e : Fault} (h : expression d b s = .error e r) : e.Foreseen d b s r := by
  refine Fault.foreseen_of_not_internal (expression_fault_not_internal h) ?_
  rintro k rfl
  exact expression_unclosable h

/-! ## Reading a statement -/

theorem readClause_ok {clause : Clause} {p : String × Float}
    (h : readClause d b clause s = .ok p r) :
    ∃ (name sign : Token) (T : Tree d .expression) (v : Float), name.kind = .name ∧
      sign.kind = .equals ∧ p = (name.lexeme, v) ∧ T.value b = .ok v ∧
      s.Peeked (name :: sign :: T.yield) r := by
  obtain ⟨name, s₁, hname, h⟩ := bind_eq_ok.1 h
  obtain ⟨sign, s₂, hsign, h⟩ := bind_eq_ok.1 h
  obtain ⟨v, s₃, hv, h⟩ := bind_eq_ok.1 h
  obtain ⟨hname, hkind⟩ := expect_eq_ok.1 hname
  obtain ⟨hsign, hkind'⟩ := expect_eq_ok.1 hsign
  obtain ⟨T, hvalue, hT⟩ := expression_ok hv
  cases h
  exact ⟨name, sign, T, v, hkind, hkind', rfl, hvalue, (hT.of_get hsign).of_get hname⟩

theorem statementAfter_ok {a : Action} (hslot : s.slot = none) (hlast : s.last = some t)
    (h : statementAfter d b t s = .ok a r) :
    ∃ ts, Sentence d b ts a ∧ (s.hold t).Peeked ts r := by
  have hget := get_hold_of_last hslot hlast
  have hclause {clause : Clause} {f : String × Float → Action}
      (h : (readClause d b clause >>= fun p => pure (f p)) s = .ok a r) :
      ∃ (name sign : Token) (T : Tree d .expression) (v : Float), name.kind = .name ∧
        sign.kind = .equals ∧ a = f (name.lexeme, v) ∧ T.value b = .ok v ∧
        (s.hold t).Peeked (t :: name :: sign :: T.yield) r := by
    obtain ⟨p, s₁, hp, h⟩ := bind_eq_ok.1 h
    obtain ⟨name, sign, T, v, hname, hsign, rfl, hvalue, hpeeked⟩ := readClause_ok hp
    cases h
    exact ⟨name, sign, T, v, hname, hsign, rfl, hvalue, hpeeked.of_get hget⟩
  have hprint (h : (Reading.putBack t >>= fun _ => expression d b >>= fun v =>
      pure (Action.print v)) s = .ok a r) : ∃ ts, Sentence d b ts a ∧ (s.hold t).Peeked ts r := by
    rw [bind_of_ok (putBack_of_slot hslot)] at h
    obtain ⟨v, s₁, hv, h⟩ := bind_eq_ok.1 h
    obtain ⟨T, hvalue, hT⟩ := expression_ok hv
    cases h
    exact ⟨T.yield, .print hvalue, hT⟩
  -- The first token decides which sentence it is.
  unfold statementAfter at h
  cases hk : t.kind <;> rw [hk] at h
  case letWord =>
    obtain ⟨name, sign, T, v, hname, hsign, rfl, hvalue, hpeeked⟩ := hclause h
    exact ⟨_, .letClause hk hname hsign hvalue, hpeeked⟩
  case constWord =>
    obtain ⟨name, sign, T, v, hname, hsign, rfl, hvalue, hpeeked⟩ := hclause h
    exact ⟨_, .constClause hk hname hsign hvalue, hpeeked⟩
  case setWord =>
    obtain ⟨name, sign, T, v, hname, hsign, rfl, hvalue, hpeeked⟩ := hclause h
    exact ⟨_, .setClause hk hname hsign hvalue, hpeeked⟩
  all_goals exact hprint h

theorem readStatement_ok {a : Action} (h : readStatement d b s = .ok a r) :
    ∃ ts, Sentence d b ts a ∧ s.Peeked ts r := by
  rw [readStatement_eq] at h
  obtain ⟨t, s₁, ht, h⟩ := bind_eq_ok.1 h
  rw [next_eq_ok] at ht
  obtain ⟨hslot, hlast⟩ := slot_last_of_get ht
  obtain ⟨ts, hsentence, hpeeked⟩ := statementAfter_ok hslot hlast h
  exact ⟨ts, hsentence, hpeeked.of_get_eq (ht.trans (get_hold ht).symm)⟩

theorem readStatement_error {e : Fault} (h : readStatement d b s = .error e r) :
    e.Foreseen d b s r := by
  rw [readStatement_eq] at h
  obtain h | ⟨t, s₁, ht, h⟩ := bind_eq_error.1 h
  · -- a single token is rejected or read
    have hends := ends_next s
    rw [Ends, h] at hends
    refine Fault.foreseen_of_not_internal hends.1 ?_
    rintro k rfl
    exact absurd h next_ne_unclosable
  · rw [next_eq_ok] at ht
    obtain ⟨hslot, hlast⟩ := slot_last_of_get ht
    refine Fault.foreseen_of_not_internal (statementAfter_not_internal hslot h) ?_
    rintro k rfl
    exact (statementAfter_unclosable hslot hlast h).of_get_eq (ht.trans (get_hold ht).symm)

end reading

/-! ## Sentences in front of the end of a statement -/

section reading
variable {s s' : Scanner} {t : Token}

/-- A token that ends a statement does not extend the expression in front of it. -/
theorem not_canExtend_of_isStop (T : Tree d .expression) (h : t.IsStop) : ¬ T.CanExtend t := by
  rintro ((⟨-, hk⟩ | ⟨op, hk⟩) | ⟨op, hk⟩)
  · exact Lockstep.not_isPostfix_of_isStop h hk
  · exact Lockstep.productOp_ne_of_isStop h op hk
  · exact Lockstep.sumOp_ne_of_isStop h op hk

/-- An expression is read as a statement that prints its value. -/
theorem readStatement_of_yield (hd : d.GroupsWithin .full) {T : Tree d .expression}
    (hgives : s.Gives (T.yield ++ [t]) s') (hnot : ¬ T.CanExtend t) :
    Comes (readStatement d b s) (T.value b) fun v r => r = .ok (.print v) (s'.hold t) := by
  obtain ⟨first, rest, hyield⟩ := List.exists_cons_of_ne_nil T.yield_ne_nil
  have hkind := T.inExpression_of_mem hd first (by simp [hyield])
  have hgives' := hgives
  rw [hyield] at hgives'
  obtain ⟨s₁, hfirst, -⟩ := hgives'
  -- The first token begins no clause, and the expression reads it again.
  have hread : readStatement d b s =
      (expression d b >>= fun v => pure (Action.print v)) (s₁.hold first) := by
    rw [readStatement_eq, next_bind hfirst, statementAfter]
    cases hk : first.kind <;> rw [hk] at hkind
    case terminator | quit | equals | comma | letWord | constWord | setWord => cases hkind
    all_goals exact putBack_bind hfirst
  have hheld := hgives.of_get_eq (by simp) ((get_hold hfirst).trans hfirst.symm)
  rw [hread]
  exact (expression_of_yield hd.closable b T hheld hnot).andThen fun v hv => bind_of_ok hv

/-- A clause is read from its name on to the end of its expression. -/
theorem readClause_of_yield (hd : d.Closable) (clause : Clause) {name sign : Token}
    {T : Tree d .expression} (hname : name.kind = .name) (hsign : sign.kind = .equals)
    (hgives : s.Gives (name :: sign :: (T.yield ++ [t])) s') (hnot : ¬ T.CanExtend t) :
    Comes (readClause d b clause s) (T.value b) fun v r =>
      r = .ok (name.lexeme, v) (s'.hold t) := by
  obtain ⟨s₁, hname', s₂, hsign', hgives⟩ := hgives
  rw [readClause, bind_of_ok (expect_of_get hname' hname), bind_of_ok (expect_of_get hsign' hsign)]
  exact (expression_of_yield hd b T hgives hnot).andThen fun v hv => bind_of_ok hv

/-- A sentence in front of the end of a statement is read, and its action is the
    result. -/
theorem readStatement_of_sentence (hd : d.GroupsWithin .full) {ts : List Token} {a : Action}
    (h : Sentence d b ts a) (hgives : s.Gives (ts ++ [t]) s') (ht : t.IsStop) :
    readStatement d b s = .ok a (s'.hold t) := by
  have hclause {word name sign : Token} {T : Tree d .expression} {v : Float} (clause : Clause)
      (f : String × Float → Action) (hname : name.kind = .name) (hsign : sign.kind = .equals)
      (value : T.value b = .ok v)
      (hgives : s.Gives (word :: name :: sign :: (T.yield ++ [t])) s') :
      ∃ s₁, s.get = (.ok word, s₁) ∧ (readClause d b clause >>= fun p => pure (f p)) s₁ =
        .ok (f (name.lexeme, v)) (s'.hold t) := by
    obtain ⟨s₁, hword, hgives⟩ := hgives
    have hread := readClause_of_yield (b := b) hd.closable clause hname hsign hgives
      (not_canExtend_of_isStop T ht)
    rw [value] at hread
    exact ⟨s₁, hword, bind_of_ok hread⟩
  cases h with
  | letClause hword hname hsign value =>
    obtain ⟨s₁, hget, hread⟩ :=
      hclause .declaration (fun p => .declare p.1 p.2 false) hname hsign value hgives
    rw [readStatement_eq, next_bind hget, statementAfter, hword]
    exact hread
  | constClause hword hname hsign value =>
    obtain ⟨s₁, hget, hread⟩ :=
      hclause .declaration (fun p => .declare p.1 p.2 true) hname hsign value hgives
    rw [readStatement_eq, next_bind hget, statementAfter, hword]
    exact hread
  | setClause hword hname hsign value =>
    obtain ⟨s₁, hget, hread⟩ :=
      hclause .assignment (fun p => .assign p.1 p.2) hname hsign value hgives
    rw [readStatement_eq, next_bind hget, statementAfter, hword]
    exact hread
  | @print T v value =>
    have hread := readStatement_of_yield (b := b) hd hgives (not_canExtend_of_isStop T ht)
    rwa [value] at hread

end reading

namespace Session

variable {s s' : Session}

/-- Carrying out an action leaves the text alone. -/
theorem perform_ok {a : Action} {o : Outcome} (h : perform a s = .ok o s') :
    o.value = a.value ∧ s'.scanner = s.scanner := by
  unfold perform at h
  split at h <;> cases h <;> exact ⟨rfl, rfl⟩

/-- An action is refused by a rejection. -/
theorem perform_error {a : Action} {e : Fault} (h : perform a s = .error e s') :
    ∃ r, e = .rejected r := by
  unfold perform at h
  split at h <;> cases h
  exact ⟨_, rfl⟩

/-- A statement that is carried out is a sentence, and the first token behind it
    is in the slot. -/
theorem statement_ok {o : Outcome} (h : s.statement = .ok o s') :
    ∃ ts a, Sentence s.dialect s.bindings ts a ∧ o.value = a.value ∧
      s.scanner.Peeked ts s'.scanner := by
  rw [statement_eq] at h
  cases hread : readStatement s.dialect s.bindings s.scanner with
  | error e r =>
    rw [hread] at h
    cases h
  | ok a r =>
    rw [hread] at h
    obtain ⟨hvalue, hscanner⟩ := perform_ok h
    obtain ⟨ts, hsentence, hpeeked⟩ := readStatement_ok hread
    rw [hscanner]
    exact ⟨ts, a, hsentence, hvalue, hpeeked⟩

/-- A sentence in front of the end of a statement is carried out, if the bindings
    allow it. -/
theorem statement_of_sentence (hd : s.dialect.GroupsWithin .full) {ts : List Token} {t : Token}
    {a : Action} {change : Option Change} {r : Scanner}
    (h : Sentence s.dialect s.bindings ts a) (hchange : s.bindings.change? a = .ok change)
    (hgives : s.scanner.Gives (ts ++ [t]) r) (ht : t.IsStop) :
    s.statement = .ok ⟨a.value, change⟩ ⟨s.dialect, r.hold t,
      change.elim s.bindings s.bindings.apply⟩ := by
  rw [statement_eq, readStatement_of_sentence hd h hgives ht]
  dsimp only [perform]
  rw [hchange]
  cases change <;> rfl

/-- A sentence whose action the bindings do not allow is rejected. -/
theorem statement_of_refused (hd : s.dialect.GroupsWithin .full) {ts : List Token} {t : Token}
    {a : Action} {cause : Cause} {r : Scanner} (h : Sentence s.dialect s.bindings ts a)
    (hchange : s.bindings.change? a = .error cause) (hgives : s.scanner.Gives (ts ++ [t]) r)
    (ht : t.IsStop) :
    s.statement = .error (.rejected ⟨cause, none⟩) { s with scanner := r.hold t } := by
  rw [statement_eq, readStatement_of_sentence hd h hgives ht]
  dsimp only [perform]
  rw [hchange]

/-- A statement that is not carried out is rejected, or has a group that nothing
    closes. -/
theorem statement_error {e : Fault} (h : s.statement = .error e s') :
    e.Foreseen s.dialect s.bindings s.scanner s'.scanner := by
  rw [statement_eq] at h
  cases hread : readStatement s.dialect s.bindings s.scanner with
  | error e' r =>
    rw [hread] at h
    cases h
    exact readStatement_error hread
  | ok a r =>
    rw [hread] at h
    obtain ⟨cause, rfl⟩ := perform_error h
    trivial

end Session

end Calculator
