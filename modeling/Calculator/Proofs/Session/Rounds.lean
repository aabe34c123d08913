import Calculator.Proofs.Session.Faults

/-! # The rounds of a session

    A turn that does not end the session makes a round: it yields a value, or
    its statement is rejected and given up. `Session.Plays` follows a session
    from round to round without a limit on their number. A run goes through
    rounds until a turn stops it, and is determined by them
    (`Session.run_plays`, `Session.Plays.run_eq`). The sessions that it comes to on its
    way are those of `Session.Visits`.
-/

namespace Calculator.Session

/-! ## Rounds -/

/-- A step of a session, and the session as the turn left it. -/
structure Round where
  step : Step
  left : Session

/-- The session that the next turn begins in. A rejected statement is given up
    before. -/
def Round.next (r : Round) : Session :=
  match r.step with
  | .value _ => r.left
  | .rejected _ => r.left.recover.2

/-- What a session does in a turn that it goes on after. -/
inductive Makes (s : Session) : Round → Prop where
  | value {o : Outcome} {s' : Session} (turn : s.turn = .ok (some o) s') :
    Makes s ⟨.value o.value, s'⟩
  | rejected {r : Rejection} {s' : Session} (turn : s.turn = .error (.rejected r) s') :
    Makes s ⟨.rejected r, s'⟩

/-- The session goes through the rounds, and then it is `s'`. -/
def Plays : Session → List Round → Session → Prop
  | s, [], s' => s' = s
  | s, r :: rounds, s' => s.Makes r ∧ r.next.Plays rounds s'

/-- What a turn does that the session does not go on after. -/
inductive Stops (s : Session) : Option Fault → Session → Prop where
  /-- A word ends the session, or the text has come to its end. -/
  | finished {s' : Session} (turn : s.turn = .ok none s') : Stops s none s'
  /-- Nothing closes a group. -/
  | unclosed {k : Token.Kind} {s' : Session} (turn : s.turn = .error (.unclosable k) s') :
    Stops s (some (.unclosable k)) s'

variable {s s₁ s₂ s' : Session} {r : Round} {rounds : List Round}

theorem Makes.remaining_lt (h : s.Makes r) :
    r.next.scanner.remaining < s.scanner.remaining := by
  cases h with
  | value turn => exact turn_remaining_lt turn
  | rejected turn => exact recover_remaining_lt turn

theorem plays_append {more : List Round} :
    s.Plays (rounds ++ more) s₂ ↔ ∃ s₁, s.Plays rounds s₁ ∧ s₁.Plays more s₂ := by
  induction rounds generalizing s with
  | nil => simp [Plays]
  | cons r rounds ih =>
    simp only [List.cons_append, Plays, ih]
    constructor
    · rintro ⟨hr, s₁, hrounds, hmore⟩
      exact ⟨s₁, ⟨hr, hrounds⟩, hmore⟩
    · rintro ⟨s₁, ⟨hr, hrounds⟩, hmore⟩
      exact ⟨hr, s₁, hrounds, hmore⟩

/-! ## Runs -/

/-- The steps of a round are in front of those of the run after it. -/
theorem Makes.run_eq (h : s.Makes r) : s.run = r.next.run.after r.step := by
  rw [Session.run_eq]
  cases h with
  | value turn => rw [turn]; rfl
  | rejected turn => rw [turn]; rfl

theorem Plays.run_eq (h : s.Plays rounds s₁) :
    s.run = { s₁.run with steps := rounds.map Round.step ++ s₁.run.steps } := by
  induction rounds generalizing s with
  | nil => rw [h]; rfl
  | cons r rounds ih =>
    obtain ⟨hr, hrounds⟩ := h
    rw [hr.run_eq, ih hrounds]
    rfl

theorem Stops.run_eq {f : Option Fault} (h : s.Stops f s') : s.run = ⟨[], f, s'⟩ := by
  rw [Session.run_eq]
  cases h with
  | finished turn => rw [turn]
  | unclosed turn => rw [turn]

theorem makes_or_stops (s : Session) : (∃ r, s.Makes r) ∨ ∃ f s', s.Stops f s' := by
  cases hturn : s.turn with
  | ok o s' =>
    cases o with
    | none => exact .inr ⟨none, s', .finished hturn⟩
    | some o => exact .inl ⟨_, .value hturn⟩
  | error e s' =>
    obtain ⟨r, rfl⟩ | ⟨k, t, scanner, rfl, -⟩ := turn_error hturn
    · exact .inl ⟨_, .rejected hturn⟩
    · exact .inr ⟨_, s', .unclosed hturn⟩

/-- A proof about all sessions goes along their rounds, each of which leaves less
    to read. -/
theorem round_induction {P : Session → Prop}
    (round : ∀ s, (∀ r, s.Makes r → P r.next) → P s) (s : Session) : P s := by
  induction hn : s.scanner.remaining using Nat.strongRecOn generalizing s with
  | ind n ih =>
    subst hn
    exact round s fun r hr => ih _ hr.remaining_lt r.next rfl

/-- A run goes through rounds until a turn stops it. -/
theorem run_plays (s : Session) :
    ∃ rounds s₁, s.Plays rounds s₁ ∧ s₁.Stops s.run.fault s.run.final ∧
      s.run.steps = rounds.map Round.step := by
  induction s using round_induction with
  | round s ih =>
    obtain ⟨r, hr⟩ | ⟨f, s', hstops⟩ := s.makes_or_stops
    · obtain ⟨rounds, s₁, hplays, hstops, hsteps⟩ := ih r hr
      rw [hr.run_eq]
      exact ⟨r :: rounds, s₁, ⟨hr, hplays⟩, hstops, congrArg (r.step :: ·) hsteps⟩
    · rw [hstops.run_eq]
      exact ⟨[], s, rfl, hstops, rfl⟩

/-! ## The states of a run -/

/-- The states of a run: before each turn, and as each turn leaves it. -/
inductive Visits (s₀ : Session) : Session → Prop where
  | before {s : Session} (h : s₀.Reaches s) : Visits s₀ s
  | completed {s s' : Session} {o : Option Outcome} (h : s₀.Reaches s) (turn : s.turn = .ok o s') :
    Visits s₀ s'
  | failed {s s' : Session} {e : Fault} (h : s₀.Reaches s) (turn : s.turn = .error e s') :
    Visits s₀ s'

theorem Plays.reaches {rounds : List Round} (h : s.Plays rounds s₁) : s.Reaches s₁ := by
  induction rounds generalizing s with
  | nil =>
    rw [h]
    exact .refl s
  | cons r rounds ih =>
    obtain ⟨hr, hrounds⟩ := h
    refine Reaches.trans ?_ (ih hrounds)
    cases hr with
    | value turn => exact (Reaches.refl s).value turn
    | rejected turn => exact (Reaches.refl s).recovery turn

/-- The last state of a run is the one that it ends in. -/
theorem visits_final (s : Session) : s.Visits s.run.final := by
  obtain ⟨rounds, s₁, hplays, hstops, -⟩ := run_plays s
  generalize s.run.final = final at *
  generalize s.run.fault = fault at *
  cases hstops with
  | finished turn => exact .completed hplays.reaches turn
  | unclosed turn => exact .failed hplays.reaches turn

end Calculator.Session
