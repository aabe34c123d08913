import Calculator.Proofs.Grammar.Blame
import Calculator.Proofs.Session.Walk

/-! # The token to blame in a statement

    A clause is rejected where its name or its equals sign is missing, and any
    statement for an error of its expression (`StatementOffence`). Whatever rejects
    a statement while it is read is such an offence, or a character that begins no
    token (`statementAfter_blames`).
-/

namespace Calculator

open Reading Scanner

variable {d : Dialect} {b : Bindings}

/-! ## Offences of statements -/

/-- The clause that a word of this kind begins. -/
def Token.Kind.clause? : Token.Kind → Option Clause
  | .letWord | .constWord => some .declaration
  | .setWord => some .assignment
  | _ => none

/-- The tokens `ts` are read for a statement, and in the end the token `t` among
    them is to blame for an error. -/
inductive StatementOffence (d : Dialect) (b : Bindings) : List Token → Token → Cause → Prop where
  | name {word t : Token} {clause : Clause} (begins : word.kind.clause? = some clause)
      (other : t.kind ≠ .name) :
    StatementOffence d b [word, t] t (.missingName clause)
  | equals {word name t : Token} {clause : Clause} (begins : word.kind.clause? = some clause)
      (name_kind : name.kind = .name) (other : t.kind ≠ .equals) :
    StatementOffence d b [word, name, t] t (.missingEquals clause name.lexeme)
  | value {word name sign t : Token} {clause : Clause} {ts : List Token} {cause : Cause}
      (begins : word.kind.clause? = some clause) (name_kind : name.kind = .name)
      (sign_kind : sign.kind = .equals) (inner : Offence d b .expression ts t cause) :
    StatementOffence d b (word :: name :: sign :: ts) t cause
  | print {t : Token} {ts : List Token} {cause : Cause}
      (begins : ∀ u ∈ ts.head?, u.kind.clause? = none)
      (inner : Offence d b .expression ts t cause) :
    StatementOffence d b ts t cause

theorem Token.Kind.ne_terminator_of_clause? {k : Token.Kind} {clause : Clause}
    (h : k.clause? = some clause) : k ≠ .terminator := by
  rintro rfl
  cases h

namespace StatementOffence

variable {ts : List Token} {t : Token} {cause : Cause}

theorem mem (h : StatementOffence d b ts t cause) : t ∈ ts := by
  cases h with
  | name | equals => simp
  | value _ _ _ inner => simp [inner.mem]
  | print _ inner => exact inner.mem

/-- A terminator can only be the last of the tokens. -/
theorem ne_terminator_of_mem (hd : d.GroupsWithin .full) (h : StatementOffence d b ts t cause) :
    ∀ u ∈ ts.dropLast, u.kind ≠ .terminator := by
  cases h with
  | name begins => simpa using Token.Kind.ne_terminator_of_clause? begins
  | equals begins name_kind =>
    simpa [name_kind] using Token.Kind.ne_terminator_of_clause? begins
  | value begins name_kind sign_kind inner =>
    have hne := List.ne_nil_of_mem inner.mem
    have hinner := fun u hu => ne_terminator_of_inExpression (inner.inExpression_of_mem hd u hu)
    simpa [List.dropLast_cons_of_ne_nil, hne, name_kind, sign_kind,
      Token.Kind.ne_terminator_of_clause? begins] using hinner
  | print _ inner =>
    exact fun u hu => ne_terminator_of_inExpression (inner.inExpression_of_mem hd u hu)

end StatementOffence

section reading
variable {s s₁ s' : Scanner} {r : Rejection} {t word : Token}

/-- A clause is stopped where its name or its sign is missing, or in its
    expression. -/
theorem readClause_blames (hd : d.GroupsWithin .full) {clause : Clause}
    (hword : s.get = (.ok word, s₁)) (begins : word.kind.clause? = some clause)
    (h : readClause d b clause s₁ = .error (.rejected r) s') :
    Blames (StatementOffence d b) s r s' := by
  have hplain := Token.Kind.ne_terminator_of_clause? begins
  have hone : s.Gives [word] s₁ := gives_singleton.2 hword
  obtain h | ⟨name, s₂, hname, h⟩ := bind_eq_error.1 h
  · obtain h | ⟨u, hu, hk, rfl⟩ := expect_eq_rejected h
    · exact .character hone (by simpa using hplain) h
    · exact .token (gives_append.2 ⟨s₁, hone, gives_singleton.2 hu⟩) (.name begins hk)
  · obtain ⟨hname, hkn⟩ := expect_eq_ok.1 hname
    have htwo : s.Gives [word, name] s₂ := ⟨s₁, hword, gives_singleton.2 hname⟩
    obtain h | ⟨sign, s₃, hsign, h⟩ := bind_eq_error.1 h
    · obtain h | ⟨u, hu, hk, rfl⟩ := expect_eq_rejected h
      · exact .character htwo (by simp [hplain, hkn]) h
      · exact .token (gives_append.2 ⟨s₂, htwo, gives_singleton.2 hu⟩) (.equals begins hkn hk)
    · obtain ⟨hsign, hks⟩ := expect_eq_ok.1 hsign
      have hthree : s.Gives [word, name, sign] s₃ :=
        ⟨s₁, hword, s₂, hname, gives_singleton.2 hsign⟩
      obtain h | ⟨v, s₄, -, h⟩ := bind_eq_error.1 h
      · exact (expression_blames hd h).of_gives hthree (by simp [hplain, hkn, hks])
          fun _ _ _ => .value begins hkn hks
      · cases h

/-- Whatever rejects a statement while it is read is an offence among its tokens,
    or a character behind them that begins none. -/
theorem statementAfter_blames (hd : d.GroupsWithin .full) (hslot : s.slot = none)
    (hlast : s.last = some t) (h : statementAfter d b t s = .error (.rejected r) s') :
    Blames (StatementOffence d b) (s.hold t) r s' := by
  have hget := get_hold_of_last hslot hlast
  have hclause {clause : Clause} {f : String × Float → Action}
      (begins : t.kind.clause? = some clause)
      (h : (readClause d b clause >>= fun p => pure (f p)) s = .error (.rejected r) s') :
      Blames (StatementOffence d b) (s.hold t) r s' := by
    obtain h | ⟨p, s₁, -, h⟩ := bind_eq_error.1 h
    · exact readClause_blames hd hget begins h
    · cases h
  have hprint (begins : t.kind.clause? = none)
      (h : (Reading.putBack t >>= fun _ => expression d b >>= fun v =>
        pure (Action.print v)) s = .error (.rejected r) s') :
      Blames (StatementOffence d b) (s.hold t) r s' := by
    rw [bind_of_ok (putBack_of_slot hslot)] at h
    obtain h | ⟨v, s₁, -, h⟩ := bind_eq_error.1 h
    · cases expression_blames hd h with
      | character given plain rejected => exact .character given plain rejected
      | @token ts _ _ _ _ given offence =>
        refine .token given (.print ?_ offence)
        -- the first of the tokens is the one that was put back
        cases ts with
        | nil => simp
        | cons u us =>
          obtain ⟨s₂, hu, -⟩ := given
          rw [hget] at hu
          cases hu
          simpa using begins
    · cases h
  unfold statementAfter at h
  cases hk : t.kind <;> rw [hk] at h
  case letWord | constWord | setWord => exact hclause (by rw [hk]; rfl) h
  all_goals exact hprint (by rw [hk]; rfl) h

end reading

end Calculator
