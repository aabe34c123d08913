import Calculator.Proofs.Reading.Dialects
import Calculator.Proofs.Session.Rounds

/-! # The full dialect extends the classic one

    A text without the word `const` is run in the full dialect as it is in the
    classic one, from round to round with the same step, the same names and the
    scanner in the same place, until the classic dialect meets a bracket that it
    does not know where a factor has to begin (`full_extends_classic`).
-/

namespace Calculator

open Reading Scanner

section follows
variable {α : Type} {m₁ m₂ : Reading α} {s s' : Scanner} {post : α → Scanner → Prop}

theorem Follows.ok (h : Follows m₁ m₂ s post) {a : α} (hm : m₁ s = .ok a s') :
    m₂ s.inFull = .ok a s'.inFull ∧ post a s' := by
  unfold Follows at h
  rwa [hm] at h

theorem Follows.error (h : Follows m₁ m₂ s post) {e : Fault} (hm : m₁ s = .error e s')
    (he : ¬ e.Unfamiliar) :
    m₂ s.inFull = .error e s'.inFull ∧ Invariant.classic.Failed s' := by
  unfold Follows at h
  rw [hm] at h
  exact h.resolve_left he

end follows

/-- Recovery reads characters, and no words. -/
theorem Scanner.ignore_inFull (kind : Token.Kind) (s : Scanner) :
    s.inFull.ignore kind = ((s.ignore kind).1, (s.ignore kind).2.inFull) := by
  obtain ⟨cursor, keywords, slot, last⟩ := s
  unfold inFull ignore skip
  cases slot with
  | some t =>
    dsimp only
    split <;> rfl
  | none =>
    cases last with
    | some t =>
      dsimp only
      split <;> rfl
    | none => rfl

namespace Session

/-- The session with the full dialect. -/
def inFull (s : Session) : Session :=
  { s with dialect := .full, scanner := s.scanner.inFull }

/-- Whether a step is a rejection because of a bracket that the classic dialect does
    not know. -/
def Step.isUnfamiliar : Step → Bool
  | .value _ => false
  | .rejected r => r.isUnfamiliar

/-- The round in the full dialect. -/
def Round.inFull (r : Round) : Round := { r with left := r.left.inFull }

/-- A session in the classic dialect, on a text without the word `const`. -/
structure IsClassic (s : Session) : Prop where
  dialect : s.dialect = .classic
  ready : Invariant.classic.Ready s.scanner

variable {s s' s₁ : Session} {r : Round} {rounds : List Round}

/-! ## Turns -/

theorem turn_inFull (h : s.IsClassic) {o : Option Outcome} (turn : s.turn = .ok o s') :
    s.inFull.turn = .ok o s'.inFull ∧ s'.IsClassic := by
  have hfirst := follows_firstToken h.ready
  cases turns_of_eq turn with
  | ended first quit =>
    obtain ⟨hfirst, hheld⟩ := hfirst.ok first
    exact ⟨turn_of_quit hfirst quit, h.dialect, Invariant.classic_ready_of_held hheld⟩
  | @carriedOut _ _ a _ change first quit after changed =>
    obtain ⟨hfirst, hheld⟩ := hfirst.ok first
    rw [h.dialect] at after
    obtain ⟨hafter, hready⟩ := (follows_statementAfter hheld).ok after
    have hchanged : s.inFull.bindings.change? a = .ok change := changed
    refine ⟨?_, h.dialect, hready⟩
    rw [turn_of_action (s := s.inFull) hfirst quit hafter, hchanged]
    rfl

theorem turn_error_inFull (h : s.IsClassic) {e : Fault} (turn : s.turn = .error e s')
    (he : ¬ e.Unfamiliar) :
    s.inFull.turn = .error e s'.inFull ∧ s'.dialect = .classic ∧
      Invariant.classic.Failed s'.scanner := by
  have hfirst := follows_firstToken h.ready
  cases turns_of_eq turn with
  | unread first =>
    obtain ⟨hfirst, hfailed⟩ := hfirst.error first he
    exact ⟨turn_of_error hfirst, h.dialect, hfailed⟩
  | stopped first quit after =>
    obtain ⟨hfirst, hheld⟩ := hfirst.ok first
    rw [h.dialect] at after
    obtain ⟨hafter, hfailed⟩ := (follows_statementAfter hheld).error after he
    exact ⟨turn_of_stopped (s := s.inFull) hfirst quit hafter, h.dialect, hfailed⟩
  | @refused _ _ a _ cause first quit after changed =>
    obtain ⟨hfirst, hheld⟩ := hfirst.ok first
    rw [h.dialect] at after
    obtain ⟨hafter, hready⟩ := (follows_statementAfter hheld).ok after
    have hchanged : s.inFull.bindings.change? a = .error cause := changed
    refine ⟨?_, h.dialect, Invariant.classic.failed_of_ready hready⟩
    rw [turn_of_action (s := s.inFull) hfirst quit hafter, hchanged]
    rfl

theorem recover_inFull (s : Session) : s.inFull.recover.2 = s.recover.2.inFull := by
  rw [recover_eq, recover_eq]
  show ({ s.inFull with scanner := (s.scanner.inFull.ignore .terminator).2 } : Session) = _
  rw [ignore_inFull]
  rfl

/-- A text does not get new words when a statement is given up. -/
theorem isClassic_recover (hdialect : s.dialect = .classic)
    (hfailed : Invariant.classic.Failed s.scanner) : s.recover.2.IsClassic := by
  obtain ⟨hkeywords, hlacks⟩ := hfailed
  obtain ⟨hslot, hrest⟩ := recover_scanner s
  refine ⟨by rw [recover_dialect, hdialect], by rw [recover_keywords, hkeywords], ?_, ?_⟩
  · rw [hrest, Scanner.resumption]
    split
    · exact hlacks
    · exact hlacks.behindTerminator (Dialect.IsBuiltIn.avoids_terminator (.inr rfl))
  · intro t ht
    rw [hslot] at ht
    cases ht

/-! ## Rounds -/

theorem Makes.inFull (h : s.IsClassic) (hr : s.Makes r) (hstep : r.step.isUnfamiliar = false) :
    s.inFull.Makes r.inFull ∧ r.inFull.next = r.next.inFull ∧ r.next.IsClassic := by
  cases hr with
  | value turn =>
    obtain ⟨hturn, hclassic⟩ := turn_inFull h turn
    exact ⟨.value hturn, rfl, hclassic⟩
  | @rejected rejection s' turn =>
    have hfamiliar : ¬ (Fault.rejected rejection).Unfamiliar := by
      rintro ⟨r', hr', hunfamiliar⟩
      cases hr'
      exact absurd hunfamiliar (by simpa [Step.isUnfamiliar] using hstep)
    obtain ⟨hturn, hdialect, hfailed⟩ := turn_error_inFull h turn hfamiliar
    exact ⟨.rejected hturn, recover_inFull s', isClassic_recover hdialect hfailed⟩

theorem Plays.inFull (h : s.IsClassic) (hplays : s.Plays rounds s₁)
    (hsteps : ∀ r ∈ rounds, r.step.isUnfamiliar = false) :
    s.inFull.Plays (rounds.map Round.inFull) s₁.inFull ∧ s₁.IsClassic := by
  induction rounds generalizing s with
  | nil =>
    cases hplays
    exact ⟨rfl, h⟩
  | cons r rounds ih =>
    obtain ⟨hr, hrounds⟩ := hplays
    obtain ⟨hmakes, hnext, hclassic⟩ := hr.inFull h (hsteps r (by simp))
    obtain ⟨hrest, hclassic₁⟩ := ih hclassic hrounds fun r hr => hsteps r (by simp [hr])
    exact ⟨⟨hmakes, by rw [hnext]; exact hrest⟩, hclassic₁⟩

theorem Stops.inFull (h : s.IsClassic) {f : Option Fault} (hstops : s.Stops f s') :
    s.inFull.Stops f s'.inFull := by
  cases hstops with
  | finished turn => exact .finished (turn_inFull h turn).1
  | unclosed turn =>
    exact .unclosed (turn_error_inFull h turn fun ⟨r, hr, _⟩ => nomatch hr).1

/-! ## Runs -/

theorem isClassic_ofText (b : Bindings) {text : List Char}
    (hconst : ∀ n t, (Scanner.ofText Dialect.classic.keywords text).given n = .ok t →
      t.lexeme ≠ "const") : (ofText .classic b text).IsClassic := by
  have hlacks := lacks_of_given (s := Scanner.ofText Dialect.classic.keywords text) rfl hconst
  exact ⟨rfl, rfl, hlacks, fun _ ht => nomatch ht⟩

/-- On a text without the word `const`, and with any names declared before, the full
    dialect makes the rounds that the classic one makes, as long as the latter meets
    no unfamiliar bracket where a factor has to begin: the steps are the same, and
    after each turn so is the session, but for its dialect. If it never meets one,
    the runs are the same and end in the same way. If it does, the steps in front
    of that one are the same. -/
theorem full_extends_classic (b : Bindings) (text : List Char)
    (hconst : ∀ n t, (Scanner.ofText Dialect.classic.keywords text).given n = .ok t →
      t.lexeme ≠ "const") :
    let s := ofText .classic b text
    let s' := ofText .full b text
    (∀ rounds s₁, s.Plays rounds s₁ → (∀ r ∈ rounds, r.step.isUnfamiliar = false) →
      s'.Plays (rounds.map Round.inFull) s₁.inFull) ∧
    ((∀ step ∈ s.run.steps, step.isUnfamiliar = false) →
      s'.run = { s.run with final := s.run.final.inFull }) ∧
    (∀ before step after, s.run.steps = before ++ step :: after →
      (∀ x ∈ before, x.isUnfamiliar = false) →
        ∃ rounds s₁, s.Plays rounds s₁ ∧ rounds.map Round.step = before ∧
          s'.Plays (rounds.map Round.inFull) s₁.inFull ∧ before <+: s'.run.steps) := by
  intro s s'
  have hclassic : s.IsClassic := isClassic_ofText b hconst
  have hfull : s.inFull = s' := rfl
  have hstep (rounds : List Round) : (rounds.map Round.inFull).map Round.step =
      rounds.map Round.step := by simp [Round.inFull]
  obtain ⟨rounds, s₁, hplays, hstops, hrun⟩ := s.run_plays
  refine ⟨fun rounds s₁ h hsteps => (h.inFull hclassic hsteps).1, fun hsteps => ?_,
    fun before step after heq hsteps => ?_⟩
  · rw [hrun] at hsteps
    obtain ⟨hplays', hclassic₁⟩ := hplays.inFull hclassic fun r hr =>
      hsteps r.step (List.mem_map_of_mem hr)
    rw [← hfull, hplays'.run_eq, (hstops.inFull hclassic₁).run_eq, hstep]
    dsimp only
    rw [hrun, List.append_nil]
  · -- the rounds whose steps are in front
    rw [hrun, List.map_eq_append_iff] at heq
    obtain ⟨rounds₁, rounds₂, rfl, rfl, -⟩ := heq
    obtain ⟨s₂, hplays₁, -⟩ := plays_append.1 hplays
    obtain ⟨hplays', -⟩ := hplays₁.inFull hclassic fun r hr =>
      hsteps r.step (List.mem_map_of_mem hr)
    refine ⟨rounds₁, s₂, hplays₁, rfl, hplays', ?_⟩
    rw [← hfull, hplays'.run_eq, hstep]
    exact List.prefix_append _ _

/-- In `2};[3]` the first bracket begins a factor in neither dialect and is rejected
    in both, and only the second one tells them apart. -/
theorem full_extends_classic_brackets :
    let text := ['2', '\x7d', ';', '[', '3', ']']
    let two : Step := .value 2
    let closing : Step := .rejected ⟨.missingFactor, some ⟨text, 1⟩⟩
    (∀ n t, (Scanner.ofText Dialect.classic.keywords text).given n = .ok t →
      t.lexeme ≠ "const") ∧
    (∃ rounds s₁, (ofText .classic .initial text).Plays rounds s₁ ∧
      rounds.map Round.step = [two, closing] ∧
        (ofText .full .initial text).Plays (rounds.map Round.inFull) s₁.inFull) ∧
    [two, closing] <+: (ofText .full .initial text).run.steps := by
  intro text two closing
  have hconst : ∀ n t, (Scanner.ofText Dialect.classic.keywords text).given n = .ok t →
      t.lexeme ≠ "const" := by
    intro n t hgiven
    have hsmall : ∀ n < 6, ((Scanner.ofText Dialect.classic.keywords text).given n).toOption.all
        (·.lexeme ≠ "const") := by decide +kernel
    by_cases hn : n < 6
    · have hall := hsmall n hn
      rw [hgiven] at hall
      simpa [Except.toOption] using hall
    · -- behind the six characters there is nothing but the end of the text
      obtain ⟨m, rfl⟩ : ∃ m, n = 6 + m := ⟨n - 6, by omega⟩
      have hend : ((Scanner.ofText Dialect.classic.keywords text).afterGets 6).cursor.rest = [] := by
        decide +kernel
      rw [given_add, (Settled.afterGets ⟨rfl, .ofText text⟩ 6).given_end (by rw [hend]; rfl)]
        at hgiven
      cases hgiven
      decide
  have hrun : (ofText .classic .initial text).run.steps =
      [two, closing] ++ .rejected ⟨.missingFactor, some ⟨text, 3⟩⟩ :: [] := by decide +kernel
  obtain ⟨-, -, hbefore⟩ := full_extends_classic .initial text hconst
  obtain ⟨rounds, s₁, hplays, hsteps, hfull, hprefix⟩ :=
    hbefore _ _ _ hrun (by decide +kernel)
  exact ⟨hconst, ⟨rounds, s₁, hplays, hsteps, hfull⟩, hprefix⟩

end Session

end Calculator
