import Calculator.Proofs.Reading.Lockstep
import Calculator.Proofs.Text.Motion

/-! # Walking through a session

    A turn of a session reads the first token of a statement, then the rest of
    it, and carries the statement out (`turn_eq`). Every turn that does not end
    the session leaves less to read, also when the statement is rejected and
    given up. So the limits in the definitions of `readStart` and `run` are
    never reached, and both have forms without them (`firstToken_eq`,
    `run_eq`).

    `Session.Reaches` relates a session to those that it goes through.
-/

namespace Calculator

open Reading

/-! ## The cursor never moves back -/

namespace Scanner

/-- Handing out a token empties the slot and does not move the cursor back. -/
theorem get_rest_le (s : Scanner) :
    s.get.2.slot = none ∧ s.get.2.cursor.rest.length ≤ s.cursor.rest.length := by
  obtain ⟨cursor, keywords, slot, last⟩ := s
  cases slot with
  | some t => exact ⟨rfl, Nat.le_refl _⟩
  | none =>
    have hscan := (Token.length_rest_scan keywords cursor).1
    unfold get
    dsimp only
    generalize Token.scan keywords cursor = r at hscan
    obtain ⟨outcome | outcome, cursor'⟩ := r <;> exact ⟨rfl, hscan⟩

/-- Where no token begins, a character is passed over. -/
theorem get_error_rest_lt {s s' : Scanner} {r : Rejection} (h : s.get = (.error r, s')) :
    s'.slot = none ∧ s'.cursor.rest.length < s.remaining := by
  obtain ⟨cursor, keywords, slot, last⟩ := s
  cases slot with
  | some t => cases h
  | none =>
    have hscan := (Token.length_rest_scan keywords cursor).2
    unfold get at h
    dsimp only at h
    generalize Token.scan keywords cursor = result at hscan h
    obtain ⟨outcome | outcome, cursor'⟩ := result
    · cases h
      obtain ⟨t, ht, -⟩ | hlt := hscan
      · cases ht
      · exact ⟨rfl, hlt.2⟩
    · cases h

end Scanner

/-- At most `n` characters are unread. -/
def Invariant.unread (n : Nat) : Invariant where
  Stop _ := False
  Ready s := s.cursor.rest.length ≤ n
  Held _ s := s.slot = none ∧ s.cursor.rest.length ≤ n
  Failed s := s.cursor.rest.length ≤ n
  get := by
    intro s h
    have hget := s.get_rest_le
    generalize s.get = result at hget ⊢
    obtain ⟨outcome | outcome, s'⟩ := result
    · exact .inr ⟨_, s', rfl, Nat.le_trans hget.2 h⟩
    · exact .inl ⟨_, s', rfl, hget.1, Nat.le_trans hget.2 h⟩
  held_slot h := h.1
  ready_hold h := h.2
  ready_or_stop h := .inl h.2
  isStop := isStop_never
  failed_of_ready h := h
  failed_of_held h := h.2

/-- Reading the rest of a statement does not move the cursor back. -/
theorem statementAfter_rest_le {d : Dialect} {b : Bindings} {t : Token} {s : Scanner}
    (hslot : s.slot = none) :
    (Invariant.unread s.cursor.rest.length).After (statementAfter d b t s) :=
  Invariant.after_statementAfter (fun _ => False.elim) ⟨hslot, Nat.le_refl _⟩

/-- A token that is handed out is no longer there to read. -/
theorem Scanner.get_remaining_le {s s' : Scanner} {t : Token} (h : s.get = (.ok t, s')) :
    s'.remaining + t.weight ≤ s.remaining := by
  have hends := ends_next s
  rw [Ends, next_eq_ok.2 h] at hends
  exact hends.1.2

/-! ## The first token -/

/-- A larger limit changes nothing. -/
theorem readStart_agree {n m : Nat} {s : Scanner} (hn : s.remaining < n) (hm : s.remaining < m) :
    readStart n s = readStart m s := by
  -- Both limits go down with each terminator, and so does what is left to read.
  induction n generalizing m s with
  | zero => omega
  | succ n ih =>
    obtain ⟨m, rfl⟩ : ∃ k, m = k + 1 := ⟨m - 1, by omega⟩
    unfold readStart
    refine bind_congr_of_ends (ends_next s) rfl fun t s' ht _ => ?_
    split
    · next hk =>
      have hw := Token.weight_of_kind (t := t) (by simp [hk])
      exact ih (by omega) (by omega)
    · rfl

/-- The first token of the next statement. -/
def firstToken : Reading Token := fun s => readStart (s.remaining + 1) s

theorem firstToken_eq :
    firstToken = next >>= fun t => if t.kind = .terminator then firstToken else pure t := by
  funext s
  refine bind_congr_of_ends (ends_next s) rfl fun t s' ht _ => ?_
  by_cases hk : t.kind = .terminator
  · have hw := Token.weight_of_kind (t := t) (by simp [hk])
    rw [if_pos hk, if_pos hk]
    exact readStart_agree (by omega) (by omega)
  · rw [if_neg hk, if_neg hk]

section steps
variable {s s' : Scanner} {t : Token}

/-- A terminator in front of a statement is passed over. -/
theorem firstToken_of_terminator (h : s.get = (.ok t, s')) (hk : t.kind = .terminator) :
    firstToken s = firstToken s' := by
  rw [firstToken_eq, next_bind h, if_pos hk, ← firstToken_eq]

theorem firstToken_of_other (h : s.get = (.ok t, s')) (hk : t.kind ≠ .terminator) :
    firstToken s = .ok t s' := by
  rw [firstToken_eq, next_bind h, if_neg hk]
  rfl

theorem firstToken_of_error {r : Rejection} (h : s.get = (.error r, s')) :
    firstToken s = .error (.rejected r) s' := by
  rw [firstToken_eq]
  exact bind_of_error (by rw [next, h])

end steps

/-- The first token of a statement, or a character that begins none, is what is
    read next in a state that the terminators in front of it lead to. -/
theorem firstToken_cases {P : Scanner → Prop} {s : Scanner} (hs : P s)
    (hpass : ∀ {s t s'}, P s → s.get = (.ok t, s') → t.kind = .terminator → P s') :
    (∃ s₁ t s', P s₁ ∧ s₁.get = (.ok t, s') ∧ t.kind ≠ .terminator ∧
      firstToken s = .ok t s') ∨
    ∃ s₁ r s', P s₁ ∧ s₁.get = (.error r, s') ∧ firstToken s = .error (.rejected r) s' := by
  -- Each terminator that is passed over leaves less to read.
  induction hn : s.remaining using Nat.strongRecOn generalizing s with
  | ind n ih =>
    subst hn
    cases hget : s.get with
    | mk outcome s₁ =>
      cases outcome with
      | error r => exact .inr ⟨s, r, s₁, hs, hget, firstToken_of_error hget⟩
      | ok u =>
        by_cases hk : u.kind = .terminator
        · have hle := Scanner.get_remaining_le hget
          have hw := Token.weight_of_kind (t := u) (by simp [hk])
          rw [firstToken_of_terminator hget hk]
          exact ih s₁.remaining (by omega) (hpass hs hget hk) rfl
        · exact .inl ⟨s, u, s₁, hs, hget, hk, firstToken_of_other hget hk⟩

/-- Terminators in front of a statement are passed over, so an invariant is kept up
    to its first token unless they are stops. -/
theorem Invariant.firstToken {I : Invariant} {s : Scanner} (hstop : ∀ t, ¬ I.Stop t)
    (h : I.Ready s) :
    match Calculator.firstToken s with
    | .ok t s' => I.Held t s'
    | .error _ s' => I.Failed s' := by
  obtain ⟨s₁, t, s', h₁, hget, -, hfirst⟩ | ⟨s₁, r, s', h₁, hget, hfirst⟩ :=
    firstToken_cases (P := I.Ready) h fun h₁ hget _ =>
      (I.ready_or_stop (held_of_get h₁ hget)).resolve_right (hstop _)
  · rw [hfirst]
    exact held_of_get h₁ hget
  · rw [hfirst]
    exact failed_of_get h₁ hget

/-- The first token of a statement is no terminator, and it was read. -/
theorem firstToken_ok {s s' : Scanner} {t : Token} (h : firstToken s = .ok t s') :
    t.kind ≠ .terminator ∧ s'.slot = none ∧ s'.last = some t ∧
      s'.remaining + t.weight ≤ s.remaining := by
  obtain ⟨s₁, u, s₂, hle, hget, hk, hfirst⟩ | ⟨s₁, r, s₂, -, -, hfirst⟩ :=
    firstToken_cases (P := fun s₁ => s₁.remaining ≤ s.remaining) (Nat.le_refl _)
      fun hle hget _ =>
        Nat.le_trans (Nat.le_of_add_right_le (Scanner.get_remaining_le hget)) hle
  · rw [hfirst] at h
    cases h
    obtain ⟨hslot, hlast⟩ := Scanner.slot_last_of_get hget
    exact ⟨hk, hslot, hlast, Nat.le_trans (Scanner.get_remaining_le hget) hle⟩
  · rw [hfirst] at h
    cases h

/-- Only a character that begins no token keeps a statement from beginning. -/
theorem firstToken_error {s s' : Scanner} {e : Fault} (h : firstToken s = .error e s') :
    (∃ r, e = .rejected r) ∧ s'.slot = none ∧ s'.cursor.rest.length < s.remaining := by
  obtain ⟨s₁, u, s₂, -, -, -, hfirst⟩ | ⟨s₁, r, s₂, hle, hget, hfirst⟩ :=
    firstToken_cases (P := fun s₁ => s₁.remaining ≤ s.remaining) (s := s) (Nat.le_refl _)
      fun hle hget _ =>
        Nat.le_trans (Nat.le_of_add_right_le (Scanner.get_remaining_le hget)) hle
  · rw [hfirst] at h
    cases h
  · rw [hfirst] at h
    cases h
    obtain ⟨hslot, hlt⟩ := Scanner.get_error_rest_lt hget
    exact ⟨⟨r, rfl⟩, hslot, Nat.lt_of_lt_of_le hlt hle⟩

/-! ## Statements -/

section statements
variable {d : Dialect} {b : Bindings}

theorem ends_readClause (clause : Clause) (s : Scanner) :
    (readClause d b clause).Ends s s.remaining fun _ _ => True := by
  refine (ends_expect _ _ s).bind fun name s₁ _ h₁ => ?_
  refine ((ends_expect _ _ s₁).mono h₁ fun _ _ h _ => h).bind fun _ s₂ _ h₂ => ?_
  refine ((ends_expression d b s₂).mono h₂ fun _ _ h _ => h).bind fun v s₃ _ h₃ => ?_
  exact Ends.pure trivial h₃

/-- The rest of a statement is read without a fault of the readers, and leaves
    less than there was in front of its first token. -/
theorem ends_statementAfter {t : Token} {s : Scanner} (hslot : s.slot = none) :
    (statementAfter d b t).Ends s (s.remaining + t.weight) fun _ s' =>
      s'.remaining < s.remaining + t.weight := by
  unfold statementAfter
  have hclause (clause : Clause) (f : String × Float → Action) (hw : t.weight = 1) :
      (readClause d b clause >>= fun p => pure (f p)).Ends s (s.remaining + t.weight)
        fun _ s' => s'.remaining < s.remaining + t.weight := by
    refine ((ends_readClause clause s).mono (Nat.le_add_right _ _) fun _ _ _ h => h).bind
      fun p s₁ h₁ hb₁ => Ends.pure ?_ hb₁
    rw [hw]
    exact Nat.lt_succ_of_le h₁
  split
  · next hk => exact hclause _ _ (Token.weight_of_kind (by simp [hk]))
  · next hk => exact hclause _ _ (Token.weight_of_kind (by simp [hk]))
  · next hk => exact hclause _ _ (Token.weight_of_kind (by simp [hk]))
  · -- The token that is put back counts again until the expression takes it.
    refine (ends_putBack hslot (Nat.le_refl _)).bind fun _ s₁ _ h₁ => ?_
    refine ((ends_expression d b s₁).mono h₁ fun _ _ h _ => h).bind fun v s₂ h₂ hb₂ => ?_
    exact Ends.pure (Nat.lt_of_lt_of_le h₂ h₁) hb₂

end statements

namespace Session

/-! ## Turns -/

/-- A reading reads on the text, and leaves the rest of the session alone. -/
theorem read_bind {α β : Type} (r : Reading α) (k : α → EStateM Fault Session β) (s : Session) :
    (read r >>= k) s =
      match r s.scanner with
      | .ok a scanner => k a { s with scanner }
      | .error e scanner => .error e { s with scanner } := by
  simp only [bind, EStateM.bind, read]
  cases r s.scanner <;> rfl

theorem statement_eq (s : Session) :
    s.statement =
      match readStatement s.dialect s.bindings s.scanner with
      | .error e scanner => .error e { s with scanner }
      | .ok a scanner => perform a { s with scanner } := by
  refine (read_bind (readStatement s.dialect s.bindings) perform s).trans ?_
  cases readStatement s.dialect s.bindings s.scanner <;> rfl

/-- A turn reads a first token and the rest of the statement, and carries the
    statement out. -/
theorem turn_eq (s : Session) :
    s.turn =
      match firstToken s.scanner with
      | .error e scanner => .error e { s with scanner }
      | .ok t scanner =>
        if t.kind = .quit then .ok none { s with scanner }
        else
          match statementAfter s.dialect s.bindings t scanner with
          | .error e scanner => .error e { s with scanner }
          | .ok a scanner =>
            match perform a { s with scanner } with
            | .ok outcome s' => .ok (some outcome) s'
            | .error e s' => .error e s' := by
  have hstart : readStart (s.scanner.remaining + 1) s.scanner = firstToken s.scanner := rfl
  refine (read_bind (readStart (s.scanner.remaining + 1)) _ s).trans ?_
  rw [hstart]
  cases hfirst : firstToken s.scanner with
  | error e scanner => rfl
  | ok t scanner =>
    dsimp only
    split
    · rfl
    · -- The first token is put back, and the statement reads it again.
      obtain ⟨-, hslot, hlast, -⟩ := firstToken_ok hfirst
      have hstatement := statement_eq { s with scanner := scanner.hold t }
      rw [readStatement_eq, next_bind (Scanner.get_hold_of_last hslot hlast)] at hstatement
      rw [read_bind, putBack_of_slot hslot]
      simp only [bind, EStateM.bind, hstatement]
      cases statementAfter s.dialect s.bindings t scanner with
      | error e scanner' => rfl
      | ok a scanner' =>
        dsimp only
        cases perform a { s with scanner := scanner' } <;> rfl

section turn
variable {s : Session} {t : Token} {scanner scanner' : Scanner}

theorem turn_of_error {e : Fault} (first : firstToken s.scanner = .error e scanner) :
    s.turn = .error e { s with scanner } := by
  rw [turn_eq, first]

theorem turn_of_quit (first : firstToken s.scanner = .ok t scanner) (quit : t.kind = .quit) :
    s.turn = .ok none { s with scanner } := by
  rw [turn_eq, first]
  exact if_pos quit

theorem turn_of_stopped {e : Fault} (first : firstToken s.scanner = .ok t scanner)
    (quit : t.kind ≠ .quit)
    (after : statementAfter s.dialect s.bindings t scanner = .error e scanner') :
    s.turn = .error e { s with scanner := scanner' } := by
  rw [turn_eq, first]
  dsimp only
  rw [if_neg quit, after]

/-- An action that was read is carried out if the bindings allow it. -/
theorem turn_of_action {a : Action} (first : firstToken s.scanner = .ok t scanner)
    (quit : t.kind ≠ .quit)
    (after : statementAfter s.dialect s.bindings t scanner = .ok a scanner') :
    s.turn =
      match s.bindings.change? a with
      | .error cause => .error (.rejected ⟨cause, none⟩) { s with scanner := scanner' }
      | .ok change => .ok (some ⟨a.value, change⟩)
        { s with
          scanner := scanner', bindings := change.elim s.bindings s.bindings.apply } := by
  rw [turn_eq, first]
  dsimp only
  rw [if_neg quit, after]
  dsimp only [perform]
  cases s.bindings.change? a with
  | error cause => rfl
  | ok change => cases change <;> rfl

end turn

/-- What a turn can come to. -/
inductive Turns (s : Session) : EStateM.Result Fault Session (Option Outcome) → Prop where
  /-- The first token ends the session. -/
  | ended {t scanner} (first : firstToken s.scanner = .ok t scanner) (quit : t.kind = .quit) :
    Turns s (.ok none { s with scanner })
  /-- No first token can be read. -/
  | unread {r scanner} (first : firstToken s.scanner = .error (.rejected r) scanner) :
    Turns s (.error (.rejected r) { s with scanner })
  /-- The statement cannot be read or has no value. -/
  | stopped {t scanner e scanner'} (first : firstToken s.scanner = .ok t scanner)
    (quit : t.kind ≠ .quit)
    (after : statementAfter s.dialect s.bindings t scanner = .error e scanner') :
    Turns s (.error e { s with scanner := scanner' })
  /-- The statement has a value, but its action cannot be carried out. -/
  | refused {t scanner a scanner' cause} (first : firstToken s.scanner = .ok t scanner)
    (quit : t.kind ≠ .quit)
    (after : statementAfter s.dialect s.bindings t scanner = .ok a scanner')
    (changed : s.bindings.change? a = .error cause) :
    Turns s (.error (.rejected ⟨cause, none⟩) { s with scanner := scanner' })
  | carriedOut {t scanner a scanner' change} (first : firstToken s.scanner = .ok t scanner)
    (quit : t.kind ≠ .quit)
    (after : statementAfter s.dialect s.bindings t scanner = .ok a scanner')
    (changed : s.bindings.change? a = .ok change) :
    Turns s (.ok (some ⟨a.value, change⟩)
      { s with scanner := scanner', bindings := change.elim s.bindings s.bindings.apply })

theorem turns (s : Session) : s.Turns s.turn := by
  cases hfirst : firstToken s.scanner with
  | error e scanner =>
    -- before the first token nothing but a rejection is possible
    obtain ⟨⟨r, rfl⟩, -⟩ := firstToken_error hfirst
    rw [turn_of_error hfirst]
    exact .unread hfirst
  | ok t scanner =>
    by_cases hquit : t.kind = .quit
    · rw [turn_of_quit hfirst hquit]
      exact .ended hfirst hquit
    · cases hafter : statementAfter s.dialect s.bindings t scanner with
      | error e scanner' =>
        rw [turn_of_stopped hfirst hquit hafter]
        exact .stopped hfirst hquit hafter
      | ok a scanner' =>
        rw [turn_of_action hfirst hquit hafter]
        cases hchange : s.bindings.change? a with
        | error cause => exact .refused hfirst hquit hafter hchange
        | ok change => exact .carriedOut hfirst hquit hafter hchange

theorem turns_of_eq {s : Session} {r : EStateM.Result Fault Session (Option Outcome)}
    (h : s.turn = r) : s.Turns r :=
  h ▸ s.turns

end Session

/-! ## Giving a statement up -/

namespace Scanner

/-- The token that was read last, whether it was put back or not. -/
def latest (s : Scanner) : Option Token := s.slot.or s.last

/-- Input is discarded unless the token that was read last is of the kind that
    is looked for. -/
theorem ignore_eq (kind : Token.Kind) (s : Scanner) :
    (s.ignore kind).2 =
      if s.latest.any (·.kind = kind) then { s with slot := none }
      else
        { s with
          slot := none
          last := none
          cursor := (s.cursor.skipThrough (Token.Kind.ofSymbol? · = some kind)).2 } := by
  obtain ⟨cursor, keywords, slot, last⟩ := s
  unfold ignore latest
  -- A token in the slot is looked at first, and only then the one that was read last.
  cases slot with
  | some t =>
    by_cases hk : t.kind = kind <;> simp [hk, skip]
  | none =>
    cases last with
    | some t => by_cases hk : t.kind = kind <;> simp [hk, skip]
    | none => simp [skip]

end Scanner

namespace Session

theorem recover_eq (s : Session) :
    s.recover.2 = { s with scanner := (s.scanner.ignore .terminator).2 } := by
  unfold recover
  split <;> next h => rw [h]

@[simp] theorem recover_dialect (s : Session) : s.recover.2.dialect = s.dialect := by
  rw [recover_eq]

@[simp] theorem recover_bindings (s : Session) : s.recover.2.bindings = s.bindings := by
  rw [recover_eq]

@[simp] theorem recover_keywords (s : Session) :
    s.recover.2.scanner.keywords = s.scanner.keywords := by
  rw [recover_eq, Scanner.ignore_eq]
  split <;> rfl

/-- Giving up a statement clears the slot and does not move the cursor back. -/
theorem recover_remaining_le (s : Session) :
    s.recover.2.scanner.remaining ≤ s.scanner.cursor.rest.length := by
  rw [recover_eq, Scanner.ignore_eq]
  split
  · exact Nat.le_refl _
  · show ((s.scanner.cursor.skipThrough _).2.rest).length ≤ _
    rw [Text.Cursor.rest_skipThrough, List.length_drop]
    have hle (p : Char → Bool) := (List.dropWhile_sublist (l := s.scanner.cursor.rest) p).length_le
    exact Nat.le_trans (Nat.sub_le _ _) (hle _)

/-! ## Turns make progress -/

/-- A statement that is carried out leaves less to read. -/
theorem turn_remaining_lt {s s' : Session} {o : Outcome} (h : s.turn = .ok (some o) s') :
    s'.scanner.remaining < s.scanner.remaining := by
  cases turns_of_eq h with
  | @carriedOut t _ _ _ _ first quit after changed =>
    obtain ⟨-, hslot, -, hle⟩ := firstToken_ok first
    have hends := ends_statementAfter (d := s.dialect) (b := s.bindings) (t := t) hslot
    rw [Ends, after] at hends
    exact Nat.lt_of_lt_of_le hends.1 hle

/-- Once the first token of a statement was read, less is unread than there was
    to read. -/
theorem firstToken_rest_lt {s s' : Scanner} {t : Token} (h : firstToken s = .ok t s')
    (hquit : t.kind ≠ .quit) : s'.cursor.rest.length < s.remaining := by
  obtain ⟨-, hslot, -, hle⟩ := firstToken_ok h
  have hw := Token.weight_of_kind hquit
  rw [Scanner.remaining, hslot, Option.elim_none] at hle
  omega

/-- A statement that is given up leaves less to read. -/
theorem recover_remaining_lt {s s' : Session} {r : Rejection}
    (h : s.turn = .error (.rejected r) s') :
    s'.recover.2.scanner.remaining < s.scanner.remaining := by
  -- The first token of the statement, or the first character, was taken before it failed.
  refine Nat.lt_of_le_of_lt s'.recover_remaining_le ?_
  cases turns_of_eq h with
  | unread first =>
    exact (firstToken_error first).2.2
  | @stopped t _ _ _ first quit after =>
    have hrest := statementAfter_rest_le (d := s.dialect) (b := s.bindings) (t := t)
      (firstToken_ok first).2.1
    rw [after] at hrest
    exact Nat.lt_of_le_of_lt hrest (firstToken_rest_lt first quit)
  | @refused t _ _ _ _ first quit after changed =>
    have hrest := statementAfter_rest_le (d := s.dialect) (b := s.bindings) (t := t)
      (firstToken_ok first).2.1
    rw [after] at hrest
    exact Nat.lt_of_le_of_lt hrest (firstToken_rest_lt first quit)

/-! ## Runs -/

/-- A larger limit changes nothing. -/
theorem runWithin_agree {n m : Nat} {s : Session} (hn : s.scanner.remaining < n)
    (hm : s.scanner.remaining < m) : runWithin n s = runWithin m s := by
  -- Each turn that the session goes on after leaves less to read (`turn_remaining_lt`,
  -- `recover_remaining_lt`), so neither limit is reached.
  induction n generalizing m s with
  | zero => omega
  | succ n ih =>
    obtain ⟨m, rfl⟩ : ∃ k, m = k + 1 := ⟨m - 1, by omega⟩
    unfold runWithin
    split
    · rfl
    · next o s' hturn =>
      have hlt := turn_remaining_lt hturn
      rw [ih (m := m) (by omega) (by omega)]
    · next r s' hturn =>
      have hlt := recover_remaining_lt hturn
      rw [ih (m := m) (by omega) (by omega)]
    · rfl

/-- A run is a turn and the run after it. -/
theorem run_eq (s : Session) :
    s.run =
      match s.turn with
      | .ok none s' => ⟨[], none, s'⟩
      | .ok (some o) s' => s'.run.after (.value o.value)
      | .error (.rejected r) s' => s'.recover.2.run.after (.rejected r)
      | .error fault s' => ⟨[], some fault, s'⟩ := by
  have hrun : s.run = runWithin (s.scanner.remaining + 1) s := rfl
  rw [hrun, runWithin]
  cases hturn : s.turn with
  | ok outcome s' =>
    cases outcome with
    | none => rfl
    | some o =>
      have hlt := turn_remaining_lt hturn
      have hlimit := runWithin_agree hlt (Nat.lt_succ_self s'.scanner.remaining)
      exact congrArg (Run.after (.value o.value)) hlimit
  | error e s' =>
    cases e with
    | rejected r =>
      have hlt := recover_remaining_lt hturn
      have hlimit := runWithin_agree hlt (Nat.lt_succ_self s'.recover.2.scanner.remaining)
      exact congrArg (Run.after (.rejected r)) hlimit
    | unclosable _ | slotOccupied _ _ | budgetExhausted => rfl

/-- The sessions that a session goes through, before each of its turns. -/
inductive Reaches : Session → Session → Prop where
  | refl (s : Session) : Reaches s s
  | value {s₀ s s' : Session} {o : Outcome} (h : Reaches s₀ s) (turn : s.turn = .ok (some o) s') :
    Reaches s₀ s'
  | recovery {s₀ s s' : Session} {r : Rejection} (h : Reaches s₀ s)
    (turn : s.turn = .error (.rejected r) s') : Reaches s₀ s'.recover.2

theorem Reaches.trans {s s₁ s₂ : Session} (h : s.Reaches s₁) (h' : s₁.Reaches s₂) :
    s.Reaches s₂ := by
  -- The second way is followed to its end.
  induction h' with
  | refl => exact h
  | value _ turn ih => exact ih.value turn
  | recovery _ turn ih => exact ih.recovery turn

end Session

end Calculator
