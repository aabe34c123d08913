import Calculator.Proofs.Console.Endings

/-! # Conversations are rendered runs

    A conversation goes through the statements of the session in the way that a
    run does, and writes as it goes along. Its two channels are those of the
    steps, one after the other (`rendered_of_prints`), up to the first value that
    cannot be printed (`rendered_of_not_prints`). The precisions that can be
    printed to end at a greatest one (`precision_beyond_greatest`).
-/

namespace Calculator

namespace Session

theorem Run.steps_after (step : Step) (r : Run) : (r.after step).steps = step :: r.steps := rfl

/-- Recovery changes the scanner only. -/
theorem closable_recover {s s' : Session} {e : Fault} (turn : s.turn = .error e s')
    (hd : s.dialect.Closable) : s'.recover.2.dialect.Closable := by
  rw [recover_dialect, turn_error_dialect turn]
  exact hd

end Session

namespace Console

open Session

variable {c : Settings} {s s' : Session} {t : Transcript}

/-! ## What is written for a step -/

/-- The step can be written: a value can be printed to the precision. -/
def Settings.Prints (c : Settings) : Step → Prop
  | .value _ => 0 ≤ c.precision ∧ c.precision ≤ maxPrecision
  | .rejected _ => True

/-- What a prompt and a step put on the first channel. -/
def Settings.printed (c : Settings) : Step → String
  | .value v => c.promptText ++ String.ofList (resultChars c.precision.toNat v) ++ "\n"
  | .rejected _ => c.promptText

/-- What a step puts on the second channel. -/
def complaint : Step → String
  | .value _ => ""
  | .rejected r => "error: " ++ r.diagnostic.text ++ "\n"

theorem resultText?_of_prints {v : Float} (h : c.Prints (.value v)) :
    resultText? c.precision v = some (String.ofList (resultChars c.precision.toNat v)) := by
  have hrange : (decide (0 ≤ c.precision) && decide (c.precision ≤ maxPrecision)) = true := by
    simpa [Settings.Prints] using h
  unfold resultText?
  rw [if_pos hrange]

theorem resultText?_of_not_prints {v : Float} (h : ¬ c.Prints (.value v)) :
    resultText? c.precision v = none := by
  have hrange : ¬ (decide (0 ≤ c.precision) && decide (c.precision ≤ maxPrecision)) = true := by
    simpa [Settings.Prints] using h
  unfold resultText?
  rw [if_neg hrange]

/-! ## Steps of a conversation -/

theorem Transcript.out_after (out : String) (notices : List Notice) (t : Transcript) :
    (t.after out notices).out = out ++ t.out := rfl

theorem noticesText_append (verbose : Bool) (ns ms : List Notice) :
    noticesText verbose (ns ++ ms) = noticesText verbose ns ++ noticesText verbose ms := by
  unfold noticesText
  rw [List.filter_append, List.map_append, String.join_append]

/-- Records are not shown if the session is not verbose. -/
theorem noticesText_records (records : List Record) :
    noticesText false (records.map .record) = "" := by
  induction records with
  | nil => rfl
  | cons r records ih => exact ih

theorem noticesText_change (o : Outcome) :
    noticesText false (o.change.toList.map (Notice.record ∘ Record.changed)) = "" := by
  rw [← List.map_map]
  exact noticesText_records _

theorem noticesText_rejection (r : Rejection) (records : List Record) :
    noticesText false (.record (.failed r.cause.summary) :: .error r.diagnostic ::
      records.map .record) = complaint (.rejected r) := by
  have hsplit := noticesText_append false
    [.record (.failed r.cause.summary), .error r.diagnostic] (records.map .record)
  rw [noticesText_records, String.append_empty] at hsplit
  refine hsplit.trans ?_
  simp [noticesText, Notice.isShown, Notice.text, complaint]

theorem converse_of_finished (c : Settings) (turn : s.turn = .ok none s') :
    converse c s = ⟨c.promptText, [], .finished, s'⟩ := by
  rw [converse, resume_eq, turn]
  simp [Transcript.after]

/-- A value that can be printed: the conversation goes on behind its line. -/
theorem converse_of_value {o : Outcome} (turn : s.turn = .ok (some o) s')
    (hprints : c.Prints (.value o.value)) :
    converse c s = (converse c s').after (c.printed (.value o.value))
      (o.change.toList.map (Notice.record ∘ Record.changed)) := by
  rw [converse, resume_eq, turn]
  dsimp only
  rw [resultText?_of_prints hprints]
  simp [converse, Transcript.after, Settings.printed, String.append_assoc]

theorem converse_of_unprintable {o : Outcome} (turn : s.turn = .ok (some o) s')
    (hprints : ¬ c.Prints (.value o.value)) :
    converse c s = ⟨c.promptText, o.change.toList.map (Notice.record ∘ Record.changed),
      .unprintable c.precision, s'⟩ := by
  rw [converse, resume_eq, turn]
  dsimp only
  rw [resultText?_of_not_prints hprints]
  simp [Transcript.after]

/-- A rejection: the conversation goes on after the recovery. -/
theorem converse_of_rejected {r : Rejection} (turn : s.turn = .error (.rejected r) s') :
    converse c s = (converse c s'.recover.2).after (c.printed (.rejected r))
      (.record (.failed r.cause.summary) :: .error r.diagnostic ::
        s'.recover.1.map .record) := by
  rw [converse, resume_eq, turn]
  simp [converse, Transcript.after, Settings.printed]

/-! ## Whole conversations -/

/-- Both channels of a transcript that was written for `steps`, and how it ended:
    `out` was written last on the first channel. -/
structure Transcript.Renders (t : Transcript) (c : Settings) (steps : List Step) (out : String)
    (ending : Ending) : Prop where
  out : t.out = String.join (steps.map c.printed) ++ out
  err : noticesText false t.notices = String.join (steps.map complaint)
  ending : t.ending = ending

namespace Transcript.Renders

variable {steps : List Step} {out : String} {ending : Ending}

/-- A step that is written in front. -/
theorem after (h : t.Renders c steps out ending) (step : Step) {notices : List Notice}
    (hnotices : noticesText false notices = complaint step) :
    (t.after (c.printed step) notices).Renders c (step :: steps) out ending where
  out := by rw [out_after, h.out, List.map_cons, String.join_cons, String.append_assoc]
  err := by
    have htext : noticesText false (t.after (c.printed step) notices).notices =
        noticesText false notices ++ noticesText false t.notices := noticesText_append _ _ _
    rw [htext, hnotices, h.err, List.map_cons, String.join_cons]
  ending := h.ending

end Transcript.Renders

/-- Where every value of the run can be printed, the conversation goes through the
    whole run. -/
theorem rendered_of_prints (hd : s.dialect.Closable)
    (hprints : ∀ step ∈ s.run.steps, c.Prints step) :
    (converse c s).Renders c s.run.steps c.promptText .finished ∧
      (converse c s).final = s.run.final := by
  induction s using run_induction with
  | turn s hvalue hrecovery =>
    cases hturn : s.turn with
    | ok o s' =>
      cases o with
      | none =>
        rw [converse_of_finished c hturn, run_eq, hturn]
        exact ⟨⟨by simp, rfl, rfl⟩, rfl⟩
      | some o =>
        have hrun : s.run = s'.run.after (.value o.value) := by rw [run_eq, hturn]
        rw [hrun] at hprints ⊢
        obtain ⟨hfirst, hrest⟩ := List.forall_mem_cons.1 hprints
        obtain ⟨hrenders, hfinal⟩ := hvalue o s' hturn (turn_dialect hturn ▸ hd) hrest
        rw [converse_of_value hturn hfirst]
        exact ⟨hrenders.after (.value o.value) (noticesText_change o), hfinal⟩
    | error e s' =>
      obtain ⟨r, rfl⟩ := turn_error_of_closable hd hturn
      have hrun : s.run = s'.recover.2.run.after (.rejected r) := by rw [run_eq, hturn]
      rw [hrun] at hprints ⊢
      obtain ⟨-, hrest⟩ := List.forall_mem_cons.1 hprints
      obtain ⟨hrenders, hfinal⟩ := hrecovery r s' hturn (closable_recover hturn hd) hrest
      rw [converse_of_rejected hturn]
      exact ⟨hrenders.after (.rejected r) (noticesText_rejection r _), hfinal⟩

/-- A value that cannot be printed: the conversation goes through the run up to
    there, and one prompt stands behind what was written. -/
theorem rendered_of_not_prints (hd : s.dialect.Closable) {before rest : List Step} {v : Float}
    (hsteps : s.run.steps = before ++ .value v :: rest)
    (hbefore : ∀ step ∈ before, c.Prints step) (hv : ¬ c.Prints (.value v)) :
    (converse c s).Renders c before c.promptText (.unprintable c.precision) := by
  induction s using run_induction generalizing before with
  | turn s hvalue hrecovery =>
    rw [run_eq] at hsteps
    cases hturn : s.turn with
    | ok o s' =>
      rw [hturn] at hsteps
      cases o with
      | none => exact absurd hsteps (by simp)
      | some o =>
        dsimp only [Run.steps_after] at hsteps
        obtain ⟨rfl, hsame⟩ | ⟨before, rfl, hrest⟩ := List.cons_eq_append_iff.1 hsteps
        · -- the value is the one that cannot be printed
          injection hsame with hsame _
          injection hsame with hsame
          rw [hsame] at hv
          rw [converse_of_unprintable hturn hv]
          exact ⟨by simp, noticesText_change o, rfl⟩
        · obtain ⟨hfirst, hbefore⟩ := List.forall_mem_cons.1 hbefore
          rw [converse_of_value hturn hfirst]
          exact (hvalue o s' hturn (turn_dialect hturn ▸ hd) hrest hbefore).after
            (.value o.value) (noticesText_change o)
    | error e s' =>
      obtain ⟨r, rfl⟩ := turn_error_of_closable hd hturn
      rw [hturn] at hsteps
      dsimp only [Run.steps_after] at hsteps
      obtain ⟨rfl, hsame⟩ | ⟨before, rfl, hrest⟩ := List.cons_eq_append_iff.1 hsteps
      · -- a rejection is no value
        injection hsame with hsame _
        cases hsame
      · obtain ⟨-, hbefore⟩ := List.forall_mem_cons.1 hbefore
        rw [converse_of_rejected hturn]
        exact (hrecovery r s' hturn (closable_recover hturn hd) hrest hbefore).after (.rejected r)
          (noticesText_rejection r _)

/-! ## Texts -/

/-- Rejections are prompted for, and put nothing else on the first channel. -/
theorem join_printed {steps : List Step} (h : ∀ v, .value v ∉ steps) :
    String.join (steps.map c.printed) = String.join (List.replicate steps.length c.promptText) := by
  have hprinted : steps.map c.printed = List.replicate steps.length c.promptText := by
    refine List.eq_replicate_iff.2 ⟨List.length_map _, fun out hout => ?_⟩
    obtain ⟨step, hstep, rfl⟩ := List.mem_map.1 hout
    cases step with
    | value v => exact absurd hstep (h v)
    | rejected r => rfl
  rw [hprinted]

/-- Whatever the precision, a run without values can be printed. -/
theorem prints_of_rejected {steps : List Step} (h : ∀ v, .value v ∉ steps) :
    ∀ step ∈ steps, c.Prints step := by
  intro step hstep
  cases step with
  | value v => exact absurd hstep (h v)
  | rejected r => trivial

/-- With a precision from `0` to the greatest one, and also with any other if no
    statement has a value, a conversation comes to the end of the session: there is
    a prompt for each step of the run, with the line of its value behind it or its
    error message on the other channel, and one more prompt. With any other
    precision it stops at the first value, behind the prompt for it. -/
theorem converse_renders_run {d : Dialect} (hd : d.IsBuiltIn) (b : Bindings) (text : List Char)
    (c : Settings) :
    let run := (Session.ofText d b text).run
    let t := converse c (Session.ofText d b text)
    run.fault = none ∧
    ((0 ≤ c.precision ∧ c.precision ≤ maxPrecision) ∨ (∀ v, .value v ∉ run.steps) →
      t.ending = .finished ∧ t.final = run.final ∧
      t.out = String.join (run.steps.map c.printed) ++ c.promptText ∧
      noticesText false t.notices = String.join (run.steps.map complaint)) ∧
    (¬ (0 ≤ c.precision ∧ c.precision ≤ maxPrecision) →
      ∀ before v rest, run.steps = before ++ .value v :: rest → (∀ w, .value w ∉ before) →
        t.ending = .unprintable c.precision ∧
        t.out = String.join (List.replicate (before.length + 1) c.promptText) ∧
        noticesText false t.notices = String.join (before.map complaint)) := by
  intro run t
  have hclosable : d.Closable := hd.groupsWithin.closable
  refine ⟨run_fault_eq_none _ hclosable, fun hprecision => ?_, ?_⟩
  · have hprints : ∀ step ∈ run.steps, c.Prints step := by
      obtain hrange | hrejected := hprecision
      · rintro (v | r) -
        · exact hrange
        · trivial
      · exact prints_of_rejected hrejected
    obtain ⟨hrenders, hfinal⟩ := rendered_of_prints (s := .ofText d b text) hclosable hprints
    exact ⟨hrenders.ending, hfinal, hrenders.out, hrenders.err⟩
  · intro hprecision before v rest hsteps hbefore
    have hrenders := rendered_of_not_prints (c := c) (s := .ofText d b text) hclosable hsteps
      (prints_of_rejected hbefore) hprecision
    refine ⟨hrenders.ending, ?_, hrenders.err⟩
    rw [hrenders.out, join_printed hbefore, List.replicate_succ', String.join_append,
      String.join_cons, String.join_nil, String.append_empty]

/-- Below `0`, the message for the first statement is written, and the value of the
    second one is not. -/
theorem converse_renders_run_negative :
    let c : Settings := { precision := -1 }
    let run := (Session.ofText .full .initial "1/0;2;3".toList).run
    let t := converse c (Session.ofText .full .initial "1/0;2;3".toList)
    ∃ r rest, run.steps = [.rejected r] ++ .value 2 :: rest ∧ t.ending = .unprintable (-1) ∧
      t.out = "> > " ∧ noticesText false t.notices = "error: " ++ r.diagnostic.text ++ "\n" := by
  intro c run t
  have hd : Dialect.full.IsBuiltIn := .inl rfl
  have hc : ¬ (0 ≤ c.precision ∧ c.precision ≤ maxPrecision) := by decide
  have hsteps : ∃ r rest, run.steps = [.rejected r] ++ .value 2 :: rest := by
    refine ⟨⟨.divisionByZero, some ⟨"1/0;2;3".toList, 1⟩⟩, [.value 3], ?_⟩
    decide +kernel
  obtain ⟨r, rest, hsteps⟩ := hsteps
  obtain ⟨hending, hout, herr⟩ :=
    (converse_renders_run hd .initial "1/0;2;3".toList c).2.2 hc _ _ _ hsteps (by simp)
  refine ⟨r, rest, hsteps, hending, hout.trans rfl, herr.trans ?_⟩
  simp [complaint]

/-- One digit more than the greatest precision cannot be asked for: the value is
    read, and the conversation stops before it is printed. -/
theorem precision_beyond_greatest :
    let c : Settings := { precision := 2147483648 }
    let s := Session.ofText .full .initial "1".toList
    0 ≤ c.precision ∧ s.run.steps = [.value 1] ∧
      (converse c s).ending = .unprintable 2147483648 ∧ (converse c s).out = "> " := by
  decide +kernel

end Console

end Calculator
