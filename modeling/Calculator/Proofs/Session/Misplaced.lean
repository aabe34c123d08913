import Calculator.Proofs.Grammar.Misplaced
import Calculator.Proofs.Session.Blame

/-! # The first token of a statement that cannot be right

    `Derives` is the grammar of statements, without a word on values. An error of
    the grammar is reported for the last token that was read: those in front of it
    begin a statement, and no statement begins with them and goes on with that token
    (`Session.grammar_error_at_first_misplaced`).
-/

namespace Calculator

open Reading Scanner

variable {d : Dialect} {b : Bindings}

/-! ## The grammar of statements -/

/-- The tokens are those of a statement. -/
inductive Derives (d : Dialect) : List Token → Prop where
  | clause {word name sign : Token} (begins : word.kind.clause?.isSome)
      (name_kind : name.kind = .name) (sign_kind : sign.kind = .equals) (T : Tree d .expression) :
    Derives d (word :: name :: sign :: T.yield)
  | print (T : Tree d .expression) : Derives d T.yield

theorem Token.Kind.clause?_of_inExpression {k : Token.Kind} (h : k.inExpression) :
    k.clause? = none := by
  cases k <;> first | rfl | cases h

/-- A statement that begins with the word for a clause is that clause. -/
theorem Derives.of_clause (hd : d.GroupsWithin .full) {word : Token} {ts : List Token}
    (begins : word.kind.clause?.isSome) (h : Derives d (word :: ts)) :
    ∃ (name sign : Token) (T : Tree d .expression), name.kind = .name ∧ sign.kind = .equals ∧
      ts = name :: sign :: T.yield := by
  generalize hword : word :: ts = us at h
  cases h with
  | clause _ name_kind sign_kind T =>
    cases hword
    exact ⟨_, _, T, name_kind, sign_kind, rfl⟩
  | print T =>
    -- no word for a clause stands in an expression
    have hin := T.inExpression_of_mem hd word (by rw [← hword]; exact List.mem_cons_self)
    rw [Token.Kind.clause?_of_inExpression hin] at begins
    cases begins

/-- The tokens `ts` begin a statement, and it takes no other word for a clause to
    finish it; no statement goes on with the token `t` behind them. -/
structure Unexpected (d : Dialect) (ts : List Token) (t : Token) : Prop where
  begins : ∃ us, Derives d (ts ++ us) ∧ ∀ u ∈ us, u.kind.clause? = none
  stuck : ∀ us, ¬ Derives d (ts ++ t :: us)

namespace Unexpected

variable {word id sign t : Token} {ts : List Token}

theorem clause?_of_mem_yield (hd : d.GroupsWithin .full) (T : Tree d .expression) :
    ∀ u ∈ T.yield, u.kind.clause? = none :=
  fun u hu => Token.Kind.clause?_of_inExpression (T.inExpression_of_mem hd u hu)

/-- There is an expression to finish a clause with. -/
theorem nonempty_expression (hd : d.GroupsWithin .full) : Nonempty (Tree d .expression) :=
  hd.nonempty_factor.elim fun F => ⟨.term (.power (.factor F))⟩

theorem name (hd : d.GroupsWithin .full) (begins : word.kind.clause?.isSome)
    (other : t.kind ≠ .name) : Unexpected d [word] t := by
  obtain ⟨T⟩ := nonempty_expression hd
  refine ⟨⟨⟨.name, "x", 0, -1⟩ :: ⟨.equals, "=", 0, -1⟩ :: T.yield,
    .clause begins rfl rfl T, ?_⟩, ?_⟩
  · simpa [Token.Kind.clause?] using clause?_of_mem_yield hd T
  · intro us h
    obtain ⟨name, sign, U, name_kind, -, hus⟩ := h.of_clause hd begins
    cases hus
    exact other name_kind

theorem equals (hd : d.GroupsWithin .full) (begins : word.kind.clause?.isSome)
    (name_kind : id.kind = .name) (other : t.kind ≠ .equals) : Unexpected d [word, id] t := by
  obtain ⟨T⟩ := nonempty_expression hd
  refine ⟨⟨⟨.equals, "=", 0, -1⟩ :: T.yield, .clause begins name_kind rfl T, ?_⟩, ?_⟩
  · simpa [Token.Kind.clause?] using clause?_of_mem_yield hd T
  · intro us h
    obtain ⟨name, sign, U, -, sign_kind, hus⟩ := h.of_clause hd begins
    cases hus
    exact other sign_kind

/-- What can finish an expression belongs to it. -/
theorem begins_of_yield (hd : d.GroupsWithin .full) {T : Tree d .expression} {us : List Token}
    (h : T.yield = ts ++ us) : ∀ u ∈ us, u.kind.clause? = none :=
  fun u hu => clause?_of_mem_yield hd T u (by rw [h]; exact List.mem_append_right ts hu)

theorem value (hd : d.GroupsWithin .full) (begins : word.kind.clause?.isSome)
    (name_kind : id.kind = .name) (sign_kind : sign.kind = .equals)
    (inner : Misplaced d .expression ts t) : Unexpected d (word :: id :: sign :: ts) t := by
  obtain ⟨T, us, hT⟩ := inner.begins
  refine ⟨⟨us, ?_, begins_of_yield hd hT⟩, fun us h => ?_⟩
  · have hclause := Derives.clause begins name_kind sign_kind T
    rwa [hT] at hclause
  · obtain ⟨name, sign, U, -, -, hus⟩ := h.of_clause hd begins
    injection hus with _ hus
    injection hus with _ hus
    exact inner.not_yield hd.closable U us hus.symm

/-- Where no clause has begun, an expression is read. -/
theorem print (hd : d.GroupsWithin .full)
    (begins : ∀ u ∈ (ts ++ [t]).head?, u.kind.clause? = none)
    (inner : Misplaced d .expression ts t) : Unexpected d ts t := by
  obtain ⟨T, us, hT⟩ := inner.begins
  refine ⟨⟨us, hT ▸ .print T, begins_of_yield hd hT⟩, fun us h => ?_⟩
  generalize hvs : ts ++ t :: us = vs at h
  cases h with
  | @clause word _ _ hword =>
    have hhead : (ts ++ [t]).head? = (ts ++ t :: us).head? := by cases ts <;> rfl
    rw [hvs] at hhead
    rw [begins word hhead] at hword
    cases hword
  | print U => exact inner.not_yield hd.closable U us hvs.symm

end Unexpected

/-! ## Reading a statement -/

section reading
variable {s s₁ s' : Scanner} {r : Rejection} {t word : Token}

theorem readClause_misreads (hd : d.GroupsWithin .full) {clause : Clause}
    (hword : s.get = (.ok word, s₁)) (begins : word.kind.clause?.isSome)
    (h : readClause d b clause s₁ = .error (.rejected r) s') : Misreads (Unexpected d) s r s' := by
  obtain h | ⟨name, s₂, hname, h⟩ := bind_eq_error.1 h
  · obtain h | ⟨u, hu, hk, rfl⟩ := expect_eq_rejected h
    · exact misreads_of_get h
    · have hgives : s.Gives ([word] ++ [u]) s' := ⟨s₁, hword, gives_singleton.2 hu⟩
      exact misreads_last hgives (.name hd begins hk)
  · obtain ⟨hname, hkn⟩ := expect_eq_ok.1 hname
    obtain h | ⟨sign, s₃, hsign, h⟩ := bind_eq_error.1 h
    · obtain h | ⟨u, hu, hk, rfl⟩ := expect_eq_rejected h
      · exact misreads_of_get h
      · have hgives : s.Gives ([word, name] ++ [u]) s' :=
          ⟨s₁, hword, s₂, hname, gives_singleton.2 hu⟩
        exact misreads_last hgives (.equals hd begins hkn hk)
    · obtain ⟨hsign, hks⟩ := expect_eq_ok.1 hsign
      have hthree : s.Gives [word, name, sign] s₃ :=
        ⟨s₁, hword, s₂, hname, gives_singleton.2 hsign⟩
      obtain h | ⟨v, s₄, -, h⟩ := bind_eq_error.1 h
      · exact (expression_misreads hd h).of_gives hthree fun _ _ => .value hd begins hkn hks
      · cases h

theorem statementAfter_misreads (hd : d.GroupsWithin .full) (hslot : s.slot = none)
    (hlast : s.last = some t) (h : statementAfter d b t s = .error (.rejected r) s') :
    Misreads (Unexpected d) (s.hold t) r s' := by
  have hget := get_hold_of_last hslot hlast
  have hclause {clause : Clause} {f : String × Float → Action} (begins : t.kind.clause?.isSome)
      (h : (readClause d b clause >>= fun p => pure (f p)) s = .error (.rejected r) s') :
      Misreads (Unexpected d) (s.hold t) r s' := by
    obtain h | ⟨p, s₁, -, h⟩ := bind_eq_error.1 h
    · exact readClause_misreads hd hget begins h
    · cases h
  have hprint (begins : t.kind.clause? = none)
      (h : (Reading.putBack t >>= fun _ => expression d b >>= fun v =>
        pure (Action.print v)) s = .error (.rejected r) s') :
      Misreads (Unexpected d) (s.hold t) r s' := by
    rw [bind_of_ok (putBack_of_slot hslot)] at h
    obtain h | ⟨v, s₁, -, h⟩ := bind_eq_error.1 h
    · intro hr
      obtain ⟨ts, u, hgives, hplace, hmisplaced⟩ := expression_misreads hd h hr
      refine ⟨ts, u, hgives, hplace, .print hd ?_ hmisplaced⟩
      -- the first of the tokens is the one that was put back
      intro first hfirst
      obtain ⟨rest, hrest⟩ := List.head?_eq_some_iff.1 hfirst
      rw [hrest] at hgives
      obtain ⟨s₂, hgives, -⟩ := hgives
      rw [hget] at hgives
      cases hgives
      exact begins
    · cases h
  unfold statementAfter at h
  cases hk : t.kind <;> rw [hk] at h
  case letWord | constWord | setWord => exact hclause (by rw [hk]; rfl) h
  all_goals exact hprint (by rw [hk]; rfl) h

theorem readStatement_misreads (hd : d.GroupsWithin .full)
    (h : readStatement d b s = .error (.rejected r) s') : Misreads (Unexpected d) s r s' := by
  rw [readStatement_eq] at h
  obtain h | ⟨t, s₁, ht, h⟩ := bind_eq_error.1 h
  · exact misreads_of_get (next_eq_rejected.1 h)
  · rw [next_eq_ok] at ht
    obtain ⟨hslot, hlast⟩ := slot_last_of_get ht
    intro hr
    obtain ⟨ts, u, hgives, hplace, hts⟩ := statementAfter_misreads hd hslot hlast h hr
    exact ⟨ts, u, hgives.of_get_eq (by simp) (ht.trans (get_hold ht).symm), hplace, hts⟩

end reading

namespace Session

variable {s s' : Session} {r : Rejection}

/-- From every state, with the slot full or empty, an error of the grammar is located
    at the token that was read last. The tokens that the statement had read before
    begin a statement of the dialect, one with no other word for a clause in it, and
    none begins with them and that token. -/
theorem grammar_error_at_first_misplaced (hd : s.dialect.IsBuiltIn)
    (h : s.statement = .error (.rejected r) s') (hr : r.cause.category = .grammar) :
    ∃ ts t, s.scanner.Gives (ts ++ [t]) s'.scanner ∧
      r.place = some ⟨s'.scanner.cursor.line, t.column⟩ ∧
      (∃ us, Derives s.dialect (ts ++ us) ∧ ∀ u ∈ us, u.kind.clause? = none) ∧
      ∀ us, ¬ Derives s.dialect (ts ++ t :: us) := by
  rw [statement_eq] at h
  cases hread : readStatement s.dialect s.bindings s.scanner with
  | error e scanner =>
    rw [hread] at h
    cases h
    obtain ⟨ts, t, hgives, hplace, hts⟩ := readStatement_misreads hd.groupsWithin hread hr
    exact ⟨ts, t, hgives, hplace, hts.begins, hts.stuck⟩
  | ok a scanner =>
    -- the statement was read, and its action is refused
    rw [hread] at h
    dsimp only [perform] at h
    cases hchange : s.bindings.change? a with
    | ok change => rw [hchange] at h; cases change <;> cases h
    | error cause =>
      rw [hchange] at h
      cases h
      cases a with
      | print v => cases hchange
      | declare name v constant =>
        rw [(Bindings.change?_declare_eq_error.1 hchange).2] at hr
        cases hr
      | assign name v =>
        obtain ⟨-, rfl⟩ | ⟨old, -, rfl⟩ := Bindings.change?_assign_eq_error.1 hchange <;> cases hr

/-- Behind the sign in the parentheses a term is expected, and a parenthesis begins
    none. -/
theorem grammar_error_at_first_misplaced_parenthesis :
    let s := ofText .classic .initial "2*(3+);".toList
    s.dialect.IsBuiltIn ∧ ∃ (r : Rejection) (s' : Session),
      s.statement = .error (.rejected r) s' ∧ r.cause.category = .grammar ∧
        ∃ ts t, s.scanner.Gives (ts ++ [t]) s'.scanner ∧
          r.place = some ⟨s'.scanner.cursor.line, t.column⟩ ∧ t.column = 5 ∧
          (∃ us, Derives s.dialect (ts ++ us) ∧ ∀ u ∈ us, u.kind.clause? = none) ∧
          ∀ us, ¬ Derives s.dialect (ts ++ t :: us) := by
  intro s
  have hd : s.dialect.IsBuiltIn := .inr rfl
  refine ⟨hd, ?_⟩
  let fault? : Option Fault := EStateM.Result.casesOn s.statement (fun _ _ => none)
    fun e _ => some e
  have hfault : fault? = some (.rejected ⟨.missingFactor, some ⟨"2*(3+);".toList, 5⟩⟩) := by
    decide +kernel
  clear_value s
  cases h : s.statement with
  | ok o s' =>
    simp only [fault?, h] at hfault
    cases hfault
  | error e s' =>
    simp only [fault?, h] at hfault
    cases hfault
    obtain ⟨ts, t, hgives, hplace, hts⟩ := grammar_error_at_first_misplaced hd h rfl
    injection hplace with hplace
    injection hplace with hline hcolumn
    exact ⟨_, s', rfl, rfl, ts, t, hgives, by rw [← hline, ← hcolumn], hcolumn.symm, hts⟩

end Session

end Calculator
