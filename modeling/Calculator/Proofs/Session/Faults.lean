import Calculator.Proofs.Grammar.Unclosed
import Calculator.Proofs.Session.Walk

/-! # What stops a session

    A turn is stopped by a rejection, from which the session recovers, or by a
    group that nothing closes (`Session.turn_error`). Where every group can be
    closed, a session is run to its end (`run_fault_eq_none`).
-/

namespace Calculator

open Reading Scanner

variable {d : Dialect} {b : Bindings} {s r : Scanner} {k : Token.Kind} {t : Token}

/-! ## Statements -/

theorem readClause_unclosable {clause : Clause}
    (h : readClause d b clause s = .error (.unclosable k) r) : Unclosed d b s k r := by
  obtain h | ⟨name, s₁, hname, h⟩ := bind_eq_error.1 h
  · exact absurd h expect_ne_unclosable
  · obtain h | ⟨sign, s₂, hsign, h⟩ := bind_eq_error.1 h
    · exact absurd h expect_ne_unclosable
    · obtain h | ⟨v, s₃, -, h⟩ := bind_eq_error.1 h
      · obtain ⟨hname, -⟩ := expect_eq_ok.1 hname
        obtain ⟨hsign, -⟩ := expect_eq_ok.1 hsign
        exact ((expression_unclosable h).of_get hsign).of_get hname
      · cases h

/-- A statement is stopped without a rejection only by an unclosed group among
    its tokens. -/
theorem statementAfter_unclosable (hslot : s.slot = none) (hlast : s.last = some t)
    (h : statementAfter d b t s = .error (.unclosable k) r) :
    Unclosed d b (s.hold t) k r := by
  have hget := get_hold_of_last hslot hlast
  have hclause {clause : Clause} {f : String × Float → Action}
      (h : (readClause d b clause >>= fun p => pure (f p)) s = .error (.unclosable k) r) :
      Unclosed d b (s.hold t) k r := by
    obtain h | ⟨p, s₁, -, h⟩ := bind_eq_error.1 h
    · exact (readClause_unclosable h).of_get hget
    · cases h
  have hprint (h : (Reading.putBack t >>= fun _ => expression d b >>= fun v =>
      pure (Action.print v)) s = .error (.unclosable k) r) : Unclosed d b (s.hold t) k r := by
    rw [bind_of_ok (putBack_of_slot hslot)] at h
    obtain h | ⟨v, s₁, -, h⟩ := bind_eq_error.1 h
    · exact expression_unclosable h
    · cases h
  -- The three words begin clauses; any other token begins an expression.
  unfold statementAfter at h
  cases hk : t.kind <;> rw [hk] at h
  case letWord | constWord | setWord => exact hclause h
  all_goals exact hprint h

/-- The readers never fail by themselves. -/
theorem statementAfter_not_internal {e : Fault} (hslot : s.slot = none)
    (h : statementAfter d b t s = .error e r) : e.isInternal = false := by
  have hends := ends_statementAfter (d := d) (b := b) (t := t) hslot
  rw [Ends, h] at hends
  exact hends.1

namespace Session

variable {s s' : Session}

/-! ## Turns -/

/-- A turn that is not completed is rejected, or stopped by an unclosed group in
    the statement. -/
theorem turn_error {e : Fault} (h : s.turn = .error e s') :
    (∃ r, e = .rejected r) ∨
      ∃ k t scanner, e = .unclosable k ∧ firstToken s.scanner = .ok t scanner ∧
        Unclosed s.dialect s.bindings (scanner.hold t) k s'.scanner := by
  cases turns_of_eq h with
  | unread first => exact .inl ⟨_, rfl⟩
  | @stopped t scanner _ _ first quit after =>
    obtain ⟨-, hslot, hlast, -⟩ := firstToken_ok first
    have hinternal := statementAfter_not_internal hslot after
    cases e with
    | rejected r => exact .inl ⟨r, rfl⟩
    | unclosable k =>
      exact .inr ⟨k, t, scanner, rfl, first, statementAfter_unclosable hslot hlast after⟩
    | slotOccupied _ _ | budgetExhausted => cases hinternal
  | refused first quit after changed => exact .inl ⟨_, rfl⟩

/-- Where every group can be closed, a turn is stopped by rejections alone. -/
theorem turn_error_of_closable (hd : s.dialect.Closable) {e : Fault}
    (h : s.turn = .error e s') : ∃ r, e = .rejected r := by
  obtain hrejected | ⟨k, t, scanner, -, -, hunclosed⟩ := turn_error h
  · exact hrejected
  · exact absurd hd hunclosed.not_closable

/-! ## Runs -/

theorem turn_dialect {o : Option Outcome} (h : s.turn = .ok o s') : s'.dialect = s.dialect := by
  cases turns_of_eq h <;> rfl

theorem turn_error_dialect {e : Fault} (h : s.turn = .error e s') :
    s'.dialect = s.dialect := by
  cases turns_of_eq h <;> rfl

/-- A proof about a run goes along its turns, each of which leaves less to
    read. -/
theorem run_induction {P : Session → Prop}
    (turn : ∀ s, (∀ o s', s.turn = .ok (some o) s' → P s') →
      (∀ r s', s.turn = .error (.rejected r) s' → P s'.recover.2) → P s) (s : Session) : P s := by
  induction hn : s.scanner.remaining using Nat.strongRecOn generalizing s with
  | ind n ih =>
    subst hn
    exact turn s (fun o s' h => ih _ (turn_remaining_lt h) s' rfl)
      fun r s' h => ih _ (recover_remaining_lt h) _ rfl

/-- Where every group can be closed, a session is run to its end. -/
theorem run_fault_eq_none (s : Session) (hd : s.dialect.Closable) : s.run.fault = none := by
  induction s using run_induction with
  | turn s hvalue hrecovery =>
    rw [run_eq]
    cases hturn : s.turn with
    | ok o s' =>
      cases o with
      | none => rfl
      | some o => exact hvalue o s' hturn (turn_dialect hturn ▸ hd)
    | error e s' =>
      obtain ⟨r, rfl⟩ := turn_error_of_closable hd hturn
      refine hrecovery r s' hturn ?_
      -- recovery changes the scanner only
      rw [recover_dialect, turn_error_dialect hturn]
      exact hd

end Session

end Calculator
