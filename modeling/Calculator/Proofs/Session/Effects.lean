import Calculator.Proofs.Bindings.History
import Calculator.Proofs.Grammar.Yield
import Calculator.Proofs.Session.Sentences

/-! # What a statement does to the bindings

    A statement that is not carried out leaves the bindings alone. One that is
    carried out adds one entry, gives a new value to one variable, or changes
    nothing, depending on the word that it begins with (`Session.statement_effect`).
    In any case it is evaluated against the bindings in front of it, so a name
    cannot be declared in terms of itself.

    A turn carries out one statement (`Session.CarriesOut`) or leaves the bindings
    alone.
-/

namespace Calculator

open Reading Scanner

variable {d : Dialect} {b : Bindings}

/-! ## Effects -/

/-- The kinds of the words that clauses begin with. -/
def Token.Kind.beginsClause (k : Token.Kind) : Bool :=
  k = .letWord || k = .constWord || k = .setWord

/-- What a statement of the tokens `ts` with the value `v` makes of the bindings
    `b`. -/
inductive Effect (d : Dialect) (b : Bindings) : List Token → Float → Bindings → Prop where
  /-- A new name is put behind all others. -/
  | declared {word name sign : Token} {T : Tree d .expression} {v : Float} {constant : Bool}
      (word_kind : word.kind = if constant then .constWord else .letWord)
      (name_kind : name.kind = .name) (sign_kind : sign.kind = .equals)
      (value : T.value b = .ok v) (free : name.lexeme ∉ b.names) :
    Effect d b (word :: name :: sign :: T.yield) v ⟨b.entries ++ [⟨name.lexeme, v, constant⟩]⟩
  /-- A variable gets a new value. -/
  | assigned {word name sign : Token} {T : Tree d .expression} {v old : Float}
      {before after : List Binding} (word_kind : word.kind = .setWord)
      (name_kind : name.kind = .name) (sign_kind : sign.kind = .equals)
      (value : T.value b = .ok v)
      (entries : b.entries = before ++ ⟨name.lexeme, old, false⟩ :: after)
      (first : ∀ u ∈ before, u.name ≠ name.lexeme) :
    Effect d b (word :: name :: sign :: T.yield) v
      ⟨before ++ ⟨name.lexeme, v, false⟩ :: after⟩
  /-- A value is printed only. -/
  | none {T : Tree d .expression} {v : Float} (value : T.value b = .ok v)
      (other : ∀ t ∈ T.yield, t.kind.beginsClause = false) :
    Effect d b T.yield v b

/-- The change that a sentence asks for, if the bindings allow it. -/
theorem Sentence.effect (hd : d.GroupsWithin .full) {ts : List Token} {a : Action}
    {change : Option Change} (h : Sentence d b ts a) (hchange : b.change? a = .ok change) :
    Effect d b ts a.value (change.elim b b.apply) := by
  cases h with
  | letClause hword hname hsign value =>
    obtain ⟨hfree, rfl⟩ := Bindings.change?_declare_eq_ok.1 hchange
    exact .declared hword hname hsign value (Bindings.find?_eq_none_iff.1 hfree)
  | constClause hword hname hsign value =>
    obtain ⟨hfree, rfl⟩ := Bindings.change?_declare_eq_ok.1 hchange
    exact .declared hword hname hsign value (Bindings.find?_eq_none_iff.1 hfree)
  | setClause hword hname hsign value =>
    obtain ⟨old, hfound, rfl⟩ := Bindings.change?_assign_eq_ok.1 hchange
    obtain ⟨-, before, after, hentries, hbefore⟩ := Bindings.find?_eq_some_iff.1 hfound
    rw [Option.elim_some, Bindings.apply, Bindings.replace,
      Bindings.replaceFirst_of_find? hentries hbefore]
    exact .assigned hword hname hsign value hentries hbefore
  | @print T v value =>
    cases hchange
    refine .none value fun t ht => ?_
    have hk := T.inExpression_of_mem hd t ht
    cases hkind : t.kind <;> rw [hkind] at hk <;> first | rfl | cases hk

namespace Session

variable {s s' : Session}

/-! ## One statement -/

/-- A statement that is carried out was read, and the bindings allowed its
    action. -/
theorem statement_eq_ok {o : Outcome} (h : s.statement = .ok o s') :
    ∃ a change scanner, readStatement s.dialect s.bindings s.scanner = .ok a scanner ∧
      s.bindings.change? a = .ok change ∧ o = ⟨a.value, change⟩ ∧
      s' = { s with scanner, bindings := change.elim s.bindings s.bindings.apply } := by
  rw [statement_eq] at h
  cases hread : readStatement s.dialect s.bindings s.scanner with
  | error e scanner => rw [hread] at h; cases h
  | ok a scanner =>
    rw [hread] at h
    dsimp only [perform] at h
    cases hchange : s.bindings.change? a with
    | error cause => rw [hchange] at h; cases h
    | ok change =>
      rw [hchange] at h
      refine ⟨a, change, scanner, rfl, hchange, ?_⟩
      cases change <;> cases h <;> exact ⟨rfl, rfl⟩

/-- A statement that is not carried out changes nothing. -/
theorem bindings_of_statement_error {e : Fault} (h : s.statement = .error e s') :
    s'.bindings = s.bindings := by
  rw [statement_eq] at h
  cases hread : readStatement s.dialect s.bindings s.scanner with
  | error e' scanner => rw [hread] at h; cases h; rfl
  | ok a scanner =>
    rw [hread] at h
    dsimp only [perform] at h
    cases hchange : s.bindings.change? a with
    | error cause => rw [hchange] at h; cases h; rfl
    | ok change => rw [hchange] at h; cases change <;> cases h

/-- A clause whose expression has no value is rejected. -/
theorem statement_of_clause (hd : s.dialect.Closable) {word name sign t : Token} {r : Scanner}
    {T : Tree s.dialect .expression} {cause : Cause} (hword : word.kind.beginsClause)
    (hname : name.kind = .name) (hsign : sign.kind = .equals)
    (hgives : s.scanner.Gives (word :: name :: sign :: (T.yield ++ [t])) r)
    (hnot : ¬ T.CanExtend t) (hvalue : T.value s.bindings = .error cause) :
    ∃ r s', s.statement = .error (.rejected r) s' := by
  obtain ⟨s₁, hword', hgives⟩ := hgives
  have hclause (clause : Clause) : ∃ place s₄, readClause s.dialect s.bindings clause s₁ =
      .error (.rejected ⟨cause, place⟩) s₄ := by
    have hcomes := readClause_of_yield (b := s.bindings) hd clause hname hsign hgives hnot
    rwa [hvalue] at hcomes
  have hread : ∃ place s₄, readStatement s.dialect s.bindings s.scanner =
      .error (.rejected ⟨cause, place⟩) s₄ := by
    rw [readStatement_eq, next_bind hword', statementAfter]
    cases hk : word.kind <;> rw [hk] at hword
    case letWord | constWord | setWord =>
      obtain ⟨place, s₄, h⟩ := hclause _
      exact ⟨place, s₄, bind_of_error h⟩
    all_goals cases hword
  obtain ⟨place, s₄, hread⟩ := hread
  rw [statement_eq, hread]
  exact ⟨_, _, rfl⟩

/-- A statement updates the bindings as a whole or not at all. If it is not
    carried out, they are what they were. If it is, they have one new entry, or
    one new value, or are what they were, as its first token says. The value is
    that of its expression with the bindings in front of it, in which all of its
    names are declared; a clause with a name that is not is rejected, also if it
    declares that name. -/
theorem statement_effect (s : Session) (hd : s.dialect.IsBuiltIn) :
    (∀ e s', s.statement = .error e s' → s'.bindings = s.bindings) ∧
    (∀ o s', s.statement = .ok o s' → ∃ ts, s.scanner.Peeked ts s'.scanner ∧
      Effect s.dialect s.bindings ts o.value s'.bindings) ∧
    ∀ (word name sign t : Token) (T : Tree s.dialect .expression) (r : Scanner),
      word.kind.beginsClause → name.kind = .name → sign.kind = .equals →
      s.scanner.Gives (word :: name :: sign :: (T.yield ++ [t])) r → ¬ T.CanExtend t →
      (∃ u ∈ T.yield, u.kind = .name ∧ u.lexeme ∉ s.bindings.names) →
      ∃ rejection s', s.statement = .error (.rejected rejection) s' ∧
        s'.bindings = s.bindings := by
  have hgroups := hd.groupsWithin
  refine ⟨fun e s' => bindings_of_statement_error, fun o s' h => ?_, ?_⟩
  · obtain ⟨a, change, scanner, hread, hchange, rfl, rfl⟩ := statement_eq_ok h
    obtain ⟨ts, hsentence, hpeeked⟩ := readStatement_ok hread
    exact ⟨ts, hpeeked, hsentence.effect hgroups hchange⟩
  · rintro word name sign t T r hword hname hsign hgives hnot ⟨u, hu, huname, hundeclared⟩
    cases hvalue : T.value s.bindings with
    | ok v =>
      -- with a value all names would be declared
      have hfind := T.declared_of_value hgroups hvalue u hu huname
      exact absurd (Bindings.find?_isSome_iff.1 hfind) hundeclared
    | error cause =>
      obtain ⟨rejection, s', h⟩ :=
        statement_of_clause hgroups.closable hword hname hsign hgives hnot hvalue
      exact ⟨rejection, s', h, bindings_of_statement_error h⟩

/-- A constant cannot be declared in terms of itself. -/
theorem statement_effect_self :
    let s := ofText .full .initial "const x = 2 * x\n".toList
    s.dialect.IsBuiltIn ∧ ∃ e s', s.statement = .error e s' ∧ s'.bindings = s.bindings := by
  intro s
  have hfails : (EStateM.run' statement s).isNone = true := by decide +kernel
  refine ⟨.inl rfl, ?_⟩
  cases hstatement : s.statement with
  | ok o s' =>
    delta EStateM.run' EStateM.run at hfails
    rw [hstatement] at hfails
    cases hfails
  | error e s' => exact ⟨e, s', rfl, (statement_effect s (.inl rfl)).1 e s' hstatement⟩

/-! ## One turn -/

/-- The next statement asks for the action, and it is carried out with these
    changes. -/
structure CarriesOut (s : Session) (a : Action) (changes : List Change) (s' : Session) :
    Prop where
  turn : ∃ change, s.turn = .ok (some ⟨a.value, change⟩) s'
  sentence : ∃ t scanner ts, firstToken s.scanner = .ok t scanner ∧
    (scanner.hold t).Peeked ts s'.scanner ∧ Sentence s.dialect s.bindings ts a
  performs : s.bindings.Performs a changes s'.bindings

theorem carriesOut_of_turn {o : Outcome} (h : s.turn = .ok (some o) s') :
    ∃ a, a.value = o.value ∧ s.CarriesOut a o.change.toList s' := by
  have hturns := turns_of_eq h
  cases hturns with
  | @carriedOut t scanner a scanner' change first quit after changed =>
    obtain ⟨-, hslot, hlast, -⟩ := firstToken_ok first
    obtain ⟨ts, hsentence, hpeeked⟩ := statementAfter_ok hslot hlast after
    refine ⟨a, rfl, ⟨change, h⟩, ⟨t, scanner, ts, first, hpeeked, hsentence⟩, ?_⟩
    exact Bindings.performs_of_change? changed

/-- A turn that is not completed changes nothing. -/
theorem bindings_of_turn_error {e : Fault} (h : s.turn = .error e s') :
    s'.bindings = s.bindings := by
  cases turns_of_eq h <;> rfl

theorem bindings_of_turn_none (h : s.turn = .ok none s') : s'.bindings = s.bindings := by
  cases turns_of_eq h
  rfl

end Session

end Calculator
