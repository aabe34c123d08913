import Calculator.CommandLine.Conversation
import Calculator.Proofs.Console.Trace

/-! # Verbose conversations

    The switch for the trace commutes with the interpretation of the arguments
    (`interpret_loud`), and so it may be added anywhere in front of the separator, unless
    it comes between a parameter and its value or between the file and the separator
    (`parse_insert_verbose`).

    A conversation does not ask whether it is verbose. So the trace is all that is added
    to it, and it is faithful (`verbose_adds_trace`).
-/

namespace Calculator.CommandLine

open Console

/-- The same options, with the trace shown. -/
def Options.loud (o : Options) : Options := { o with verbose := true }

/-- The same interpretation, with the trace shown. -/
def Progress.loud (p : Progress) : Progress := { p with options := p.options.loud }

variable {readable : String → Bool} {p p' : Progress} {as bs : List Argument} {s : String}

/-! ## Interpretation with the switch on -/

namespace Progress

theorem loud_fileSeen (p : Progress) : p.loud.fileSeen = p.fileSeen := rfl

theorem loud_switch (p : Progress) (o : Switch) :
    p.loud.switch o = loud <$> p.switch o := by
  cases o <;> rfl

theorem loud_set (p : Progress) (name : Parameter) (value : String) :
    p.loud.set name value = loud <$> p.set name value := by
  cases name with
  | dialect =>
    unfold set
    dsimp only
    split
    · rfl
    · rfl
  | precision =>
    unfold set
    cases integer? value <;> rfl

theorem loud_openFile (readable : String → Bool) (p : Progress) (name : String) :
    p.loud.openFile readable name = loud <$> p.openFile readable name := by
  unfold openFile
  split
  · rfl
  · split
    · rfl
    · rfl

theorem loud_clear (p : Progress) (name : Parameter) : p.loud.clear name = (p.clear name).loud := by
  cases name <;> rfl

theorem loud_switches (p : Progress) (on : List Switch) :
    on.foldlM switch p.loud = loud <$> on.foldlM switch p := by
  induction on generalizing p with
  | nil => rfl
  | cons o on ih =>
    rw [List.foldlM_cons, List.foldlM_cons, loud_switch]
    cases p.switch o with
    | error stop => rfl
    | ok p' => exact ih p'

theorem loud_finish (p : Progress) : p.loud.finish = Options.loud <$> p.finish := by
  show (if p.leftOver then _ else if p.dialectMissing then _ else _) = _
  unfold finish
  split
  · rfl
  · split
    · rfl
    · rfl

/-- A file that was taken fills the place. -/
theorem fileSeen_of_openFile (h : p.openFile readable s = .ok p') : p'.fileSeen = true := by
  unfold openFile at h
  split at h
  · cases h
    rfl
  · split at h <;> cases h
    rfl

end Progress

open Progress

/-- The arguments behind the file, unless a separator is right behind it. -/
theorem interpret_operand (seen : ¬ p.fileSeen = true) (opened : p.openFile readable s = .ok p')
    (other : ∀ rest, as ≠ .separator :: rest) :
    interpret readable p (.operand s :: as) = interpret readable p' as := by
  rw [interpret, if_neg seen, opened]
  dsimp only
  split
  · next rest => exact absurd rfl (other rest)
  · rfl

/-- A separator cannot be placed behind the file. -/
theorem interpret_separator_of_fileSeen (seen : p.fileSeen = true) (as : List Argument) :
    interpret readable p (.separator :: as) =
      interpret readable { p with leftOver := true } as := by
  rw [interpret.eq_def readable p (.separator :: as)]
  exact if_pos seen

/-- The switch changes nothing about the interpretation but that the trace is shown. -/
theorem interpret_loud (p : Progress) (as : List Argument) :
    interpret readable p.loud as = Options.loud <$> interpret readable p as := by
  fun_induction interpret readable p as with
  | case1 p => exact p.loud_finish
  -- operands
  | case2 p s rest seen ih =>
    rw [interpret, loud_fileSeen, if_pos seen]
    exact ih
  | case3 p s seen p' opened rest ih =>
    rw [interpret, loud_fileSeen, if_neg seen, loud_openFile, opened]
    exact ih
  | case4 p s seen p' opened rest other ih =>
    have hopened : p.loud.openFile readable s = .ok p'.loud := by
      rw [loud_openFile, opened]
      rfl
    rw [interpret_operand (p := p.loud) seen hopened other]
    exact ih
  | case5 p s rest seen stop stopped =>
    rw [interpret, loud_fileSeen, if_neg seen, loud_openFile, stopped]
    rfl
  -- the separator
  | case6 p rest seen ih =>
    rw [interpret_separator_of_fileSeen (p := p.loud) seen]
    exact ih
  | case7 p seen s rest p' opened ih =>
    rw [interpret, loud_fileSeen, if_neg seen, loud_openFile, opened]
    exact ih
  | case8 p seen s rest stop stopped =>
    rw [interpret, loud_fileSeen, if_neg seen, loud_openFile, stopped]
    rfl
  | case9 p seen rest other ih =>
    rw [interpret, loud_fileSeen, if_neg seen]
    · exact ih
    · exact other
  -- switches
  | case10 p on rest p' switched ih =>
    rw [interpret, loud_switches, switched]
    exact ih
  | case11 p on rest stop stopped =>
    rw [interpret, loud_switches, stopped]
    rfl
  -- parameters, with the value in the same argument or behind it
  | case12 p name value rest p' given ih =>
    rw [interpret, loud_set, given]
    exact ih
  | case13 p name value rest stop stopped =>
    rw [interpret, loud_set, stopped]
    rfl
  | case14 p name value rest p' given ih =>
    rw [interpret, loud_set, given]
    exact ih
  | case15 p name value rest stop stopped =>
    rw [interpret, loud_set, stopped]
    rfl
  | case16 p name rest other =>
    rw [interpret]
    · rfl
    · exact other
  | case17 p name rest ih =>
    rw [interpret, loud_clear]
    exact ih
  | case18 p rest => rfl
  | case19 p rest ih =>
    rw [interpret]
    exact ih

/-! ## The switch between other arguments -/

/-- With something left over and the place of the file filled, no operands help. -/
theorem interpret_leftOver (hoperands : ∀ a ∈ as, ∃ s, a = .operand s)
    (seen : p.fileSeen = true) (leftOver : p.leftOver = true) :
    interpret readable p as = .error .refused := by
  induction as generalizing p with
  | nil => exact if_pos leftOver
  | cons a as ih =>
    obtain ⟨s, rfl⟩ := hoperands a List.mem_cons_self
    rw [interpret, if_pos seen]
    exact ih (fun b hb => hoperands b (List.mem_cons_of_mem _ hb)) seen rfl

/-- Behind a separator that comes first there are operands only. -/
def Closes (bs : List Argument) : Prop :=
  ∀ rest, bs = .separator :: rest → ∀ a ∈ rest, ∃ s, a = .operand s

/-- The arguments `as`, the switch and the arguments `bs` ask for what `as` and `bs` ask
    for, and for the trace, or they are refused, and there are arguments behind the
    switch. -/
def Admits (readable : String → Bool) (p : Progress) (as bs : List Argument) : Prop :=
  interpret readable p (as ++ .switches [.verbose] :: bs) =
      Options.loud <$> interpret readable p (as ++ bs) ∨
    interpret readable p (as ++ .switches [.verbose] :: bs) = .error .refused ∧ bs ≠ []

theorem Admits.nil (p : Progress) (bs : List Argument) : Admits readable p [] bs :=
  .inl (interpret_loud p bs)

/-- Arguments in front do not matter once they are interpreted. -/
theorem Admits.of_step {as' : List Argument}
    (step : ∀ cs, interpret readable p (as' ++ cs) = interpret readable p' (as ++ cs))
    (h : Admits readable p' as bs) : Admits readable p as' bs := by
  unfold Admits
  rw [step, step]
  exact h

/-- Neither does what is behind arguments that stop the interpretation. -/
theorem Admits.of_stop (stop : Stop)
    (stopped : ∀ cs, interpret readable p (as ++ cs) = .error stop) : Admits readable p as bs := by
  unfold Admits
  rw [stopped, stopped]
  exact .inl rfl

/-- A switch between the file and a separator takes the separator away from the file. -/
theorem Admits.file (hbs : Closes bs) (seen : ¬ p.fileSeen = true)
    (opened : p.openFile readable s = .ok p') : Admits readable p [.operand s] bs := by
  have hswitch : interpret readable p ([.operand s] ++ .switches [.verbose] :: bs) =
      interpret readable p'.loud bs :=
    interpret_operand seen opened fun rest h => nomatch h
  unfold Admits
  rw [hswitch]
  by_cases hsep : ∃ rest, bs = .separator :: rest
  · obtain ⟨rest, rfl⟩ := hsep
    have hseen := fileSeen_of_openFile opened
    refine .inr ⟨?_, List.cons_ne_nil _ _⟩
    rw [interpret_separator_of_fileSeen (p := p'.loud) hseen]
    exact interpret_leftOver (hbs rest rfl) hseen rfl
  · have hplain : interpret readable p ([.operand s] ++ bs) = interpret readable p' bs :=
      interpret_operand seen opened fun rest h => hsep ⟨rest, h⟩
    rw [hplain]
    exact .inl (interpret_loud p' bs)

/-- A switch between a parameter and its value takes the value away from it. -/
theorem Admits.parameter (p : Progress) (name : Parameter) (bs : List Argument) :
    Admits readable p [.parameter name none] bs := by
  cases bs with
  | nil => exact .inl rfl
  | cons b bs => exact .inr ⟨rfl, List.cons_ne_nil _ _⟩

/-- Wherever the switch stands in front of a separator, the arguments ask for the same
    and for the trace, unless they are refused. -/
theorem admits (hbs : Closes bs) (p : Progress) (has : .separator ∉ as) :
    Admits readable p as bs := by
  -- Only a file and a parameter without its value look at the argument behind them.
  fun_induction interpret readable p as with
  | case1 p => exact .nil p bs
  | case2 p s rest seen ih =>
    refine (ih (List.not_mem_of_not_mem_cons has)).of_step fun cs => ?_
    rw [List.cons_append, interpret, if_pos seen]
  | case3 => exact absurd (List.mem_cons_of_mem _ List.mem_cons_self) has
  | case4 p s seen p' opened rest other ih =>
    cases rest with
    | nil => exact .file hbs seen opened
    | cons a rest =>
      refine (ih (List.not_mem_of_not_mem_cons has)).of_step fun cs => ?_
      refine interpret_operand seen opened fun rest' h => ?_
      injection h with ha _
      exact other rest (ha ▸ rfl)
  | case5 p s rest seen stop stopped =>
    refine .of_stop stop fun cs => ?_
    rw [List.cons_append, interpret, if_neg seen, stopped]
  | case6 | case7 | case8 | case9 => exact absurd List.mem_cons_self has
  | case10 p on rest p' switched ih =>
    refine (ih (List.not_mem_of_not_mem_cons has)).of_step fun cs => ?_
    rw [List.cons_append, interpret, switched]
  | case11 p on rest stop stopped =>
    refine .of_stop stop fun cs => ?_
    rw [List.cons_append, interpret, stopped]
  | case12 p name value rest p' given ih =>
    refine (ih (List.not_mem_of_not_mem_cons has)).of_step fun cs => ?_
    rw [List.cons_append, interpret, given]
  | case13 p name value rest stop stopped =>
    refine .of_stop stop fun cs => ?_
    rw [List.cons_append, interpret, stopped]
  | case14 p name value rest p' given ih =>
    have hrest := List.not_mem_of_not_mem_cons (List.not_mem_of_not_mem_cons has)
    refine (ih hrest).of_step fun cs => ?_
    rw [List.cons_append, List.cons_append, interpret, given]
  | case15 p name value rest stop stopped =>
    refine .of_stop stop fun cs => ?_
    rw [List.cons_append, List.cons_append, interpret, stopped]
  | case16 p name rest other =>
    cases rest with
    | nil => exact .parameter p name bs
    | cons a rest =>
      refine .of_stop .refused fun cs => ?_
      rw [List.cons_append, interpret]
      intro value rest' h
      injection h with ha _
      exact other value rest (ha ▸ rfl)
  | case17 p name rest ih =>
    refine (ih (List.not_mem_of_not_mem_cons has)).of_step fun cs => ?_
    rw [List.cons_append, interpret]
  | case18 p rest => exact .of_stop .refused fun cs => rfl
  | case19 p rest ih =>
    refine (ih (List.not_mem_of_not_mem_cons has)).of_step fun cs => ?_
    rw [List.cons_append, interpret]

/-! ## Arguments as they are written -/

theorem classifyOther_ne_separator (cs : List Char) : classifyOther cs ≠ .separator := by
  unfold classifyOther
  split
  · exact nofun
  · exact nofun

theorem classifyJoined_ne_separator (first : Switch) (rest : List Char) :
    classifyJoined first rest ≠ .separator := by
  unfold classifyJoined
  dsimp only
  split
  · exact nofun
  · exact nofun

theorem classifyLong_ne_separator (cs : List Char) : classifyLong cs ≠ .ok .separator := by
  unfold classifyLong
  dsimp only
  split
  · exact fun h => classifyOther_ne_separator cs (Except.ok.inj h)
  · exact nofun
  · exact nofun
  · split
    · exact nofun
    · exact nofun
  · exact nofun

/-- One argument is never taken for the separator. -/
theorem classify_ne_separator (s : String) : classify s ≠ .ok .separator := by
  unfold classify
  split
  · exact classifyLong_ne_separator _
  · split
    · exact fun h => classifyJoined_ne_separator _ _ (Except.ok.inj h)
    · exact fun h => classifyOther_ne_separator _ (Except.ok.inj h)
  · exact nofun

/-- In front of the separator the arguments are classified one by one. -/
theorem classifyAll_append {before after : List String} (h : "--" ∉ before) :
    classifyAll (before ++ after) = (do
      let as ← before.mapM classify
      let bs ← classifyAll after
      pure (as ++ bs)) := by
  induction before with
  | nil =>
    rw [List.nil_append, List.mapM_nil]
    cases classifyAll after <;> rfl
  | cons s before ih =>
    have hs : s ≠ "--" := fun hs => h (hs ▸ List.mem_cons_self)
    rw [List.cons_append, classifyAll, if_neg hs, ih fun h' => h (List.mem_cons_of_mem _ h'),
      List.mapM_cons]
    cases classify s with
    | error stop => rfl
    | ok a =>
      cases before.mapM classify with
      | error stop => rfl
      | ok as => cases classifyAll after <;> rfl

/-- Where an argument and those behind it are classified, all of them are. -/
theorem classify_cons_eq_ok {others : Except Stop (List Argument)}
    (h : (do
      let first ← classify s
      let others ← others
      pure (first :: others)) = .ok as) :
    ∃ a as', classify s = .ok a ∧ others = .ok as' ∧ as = a :: as' := by
  cases hfirst : classify s with
  | error stop =>
    rw [hfirst] at h
    cases h
  | ok a =>
    cases others with
    | error stop =>
      rw [hfirst] at h
      cases h
    | ok as' =>
      rw [hfirst] at h
      cases h
      exact ⟨a, as', rfl, rfl, rfl⟩

theorem separator_not_mem_of_mapM {before : List String} (h : before.mapM classify = .ok as) :
    .separator ∉ as := by
  induction before generalizing as with
  | nil =>
    cases h
    exact List.not_mem_nil
  | cons s before ih =>
    rw [List.mapM_cons] at h
    obtain ⟨a, as', hfirst, hrest, rfl⟩ := classify_cons_eq_ok h
    intro hmem
    rcases List.mem_cons.1 hmem with rfl | hmem
    · exact classify_ne_separator s hfirst
    · exact ih hrest hmem

theorem closes_of_classifyAll {after : List String} (h : classifyAll after = .ok bs) :
    Closes bs := by
  rintro rest rfl
  cases after with
  | nil => cases h
  | cons s after =>
    rw [classifyAll] at h
    split at h
    · cases h
      intro a ha
      obtain ⟨s', -, rfl⟩ := List.mem_map.1 ha
      exact ⟨s', rfl⟩
    · obtain ⟨a, as', hfirst, -, heq⟩ := classify_cons_eq_ok h
      cases heq
      exact absurd hfirst (classify_ne_separator s)

theorem classifyAll_verbose (after : List String) :
    classifyAll ("-v" :: after) = (.switches [.verbose] :: ·) <$> classifyAll after := by
  have hv : classify "-v" = .ok (.switches [.verbose]) := rfl
  rw [classifyAll, if_neg (by decide), hv]
  cases classifyAll after <;> rfl

/-- In front of all arguments the switch adds the trace. -/
theorem parse_verbose (args : List String) :
    parse readable ("-v" :: args) = Options.loud <$> parse readable args := by
  unfold parse
  rw [classifyAll_verbose]
  cases classifyAll args with
  | error stop => rfl
  | ok as => exact interpret_loud {} as

/-- So it does between two arguments in front of the separator, unless the arguments are
    refused. -/
theorem parse_insert_verbose {before : List String} (after : List String) (h : "--" ∉ before) :
    parse readable (before ++ "-v" :: after) = Options.loud <$> parse readable (before ++ after) ∨
      parse readable (before ++ "-v" :: after) = .error .refused ∧ before ≠ [] ∧ after ≠ [] := by
  cases before with
  | nil => exact .inl (parse_verbose after)
  | cons s before =>
    unfold parse
    rw [classifyAll_append h, classifyAll_append h, classifyAll_verbose]
    cases hfront : (s :: before).mapM classify with
    | error stop => exact .inl rfl
    | ok as =>
      cases hback : classifyAll after with
      | error stop => exact .inl rfl
      | ok bs =>
        have hadmits : Admits readable {} as bs :=
          admits (closes_of_classifyAll hback) {} (separator_not_mem_of_mapM hfront)
        rcases hadmits with hloud | ⟨hrefused, hbs⟩
        · exact .inl hloud
        · refine .inr ⟨hrefused, List.cons_ne_nil _ _, ?_⟩
          rintro rfl
          cases hback
          exact hbs rfl

/-! ## Conversations with and without a trace -/

/-- Only the built-in dialects can be asked for. -/
theorem Options.isBuiltIn_language (o : Options) : o.language.IsBuiltIn := by
  unfold language Dialect.named
  rw [List.lookup_cons, List.lookup_cons]
  split
  · exact .inr rfl
  · split
    · exact .inl rfl
    · exact .inl rfl

/-- A conversation does not ask whether its trace is shown. -/
theorem converse_loud (o : Options) (text : List Char) :
    converse o.loud text = converse o text := by
  unfold converse
  rfl

/-- A trace begins with the predefined constants. -/
theorem Options.opening_eq (o : Options) :
    o.opening =
      changeNotices Bindings.predefinedChanges ++ [.record (.started 9 o.dialect)] := rfl

/-- Behind its beginning, a trace tells what happened. -/
theorem narrates_converse (o : Options) (text : List Char) :
    ∃ ns, (converse o text).notices = o.opening ++ ns ∧
      Narrates o.settings (o.session (Text.normalizeBreaks text)) ns (converse o text).ending
        (converse o text).final := by
  have hreads := Session.reads_ofText o.language .initial (Text.normalizeBreaks text)
  unfold converse Console.converse Transcript.after
  exact ⟨_, rfl, narrates_resume o.settings o.isBuiltIn_language hreads⟩

/-- The conversation `verbose` is the conversation `quiet` about a text, with a trace that
    tells what happened. -/
structure Options.AddsTrace (o : Options) (text : List Char) (quiet verbose : Transcript) :
    Prop where
  out : verbose.out = quiet.out
  ending : verbose.ending = quiet.ending
  errors_only : noticesText o.verbose quiet.notices =
    String.join (quiet.notices.filterMap Notice.errorLine?)
  all_lines : noticesText o.loud.verbose verbose.notices =
    String.join (verbose.notices.map Notice.line)
  /-- The records stand between the error messages, which keep their order. -/
  interleaves : Interleaves (quiet.notices.filterMap Notice.errorLine?)
    (verbose.notices.filterMap Notice.recordLine?) (verbose.notices.map Notice.line)
  /-- The trace begins with the predefined constants and goes on with the statements. -/
  narrates : ∃ ns, verbose.notices =
      changeNotices Bindings.predefinedChanges ++ .record (.started 9 o.dialect) :: ns ∧
    Narrates o.settings (o.session (Text.normalizeBreaks text)) ns verbose.ending verbose.final
  /-- The changes that it reports lead from no bindings to those that are left. -/
  replays : verbose.changes.foldl Bindings.apply {} = verbose.final.bindings

theorem Options.addsTrace (o : Options) (quiet : o.verbose = false) (text : List Char) :
    o.AddsTrace text (converse o text) (converse o.loud text) := by
  rw [converse_loud]
  obtain ⟨ns, hnotices, hnarrates⟩ := narrates_converse o text
  refine {
    out := rfl
    ending := rfl
    errors_only := ?_
    all_lines := noticesText_true _
    interleaves := interleaves_lines _
    narrates := ⟨ns, ?_, hnarrates⟩
    replays := ?_ }
  · rw [quiet]
    exact noticesText_false _
  · rw [hnotices, o.opening_eq, List.append_assoc]
    rfl
  · -- the predefined constants are declared first
    have hopening : o.opening.filterMap Notice.change? = Bindings.predefinedChanges := rfl
    have hrest := (carries_resume o.settings (o.session (Text.normalizeBreaks text))).history
    unfold converse
    rw [Transcript.changes_after, hopening]
    exact (Bindings.History.initial.trans hrest).replay

/-- Wherever the switch for the trace is added to arguments that are accepted, it adds the
    trace and changes nothing else, or it separates an argument from the one behind it
    and the arguments are refused. The trace tells what happened. -/
theorem verbose_adds_trace (readable : String → Bool) (args : List String) :
    parse readable ("-v" :: args) = Options.loud <$> parse readable args ∧
    (∀ before after, args = before ++ after → "--" ∉ before →
      parse readable (before ++ "-v" :: after) = Options.loud <$> parse readable args ∨
        parse readable (before ++ "-v" :: after) = .error .refused ∧ before ≠ [] ∧
          after ≠ []) ∧
    ∀ o, parse readable args = .ok o → o.verbose = false → ∀ text,
      o.AddsTrace text (converse o text) (converse o.loud text) := by
  refine ⟨parse_verbose args, ?_, fun o _ hquiet text => o.addsTrace hquiet text⟩
  rintro before after rfl hbefore
  exact parse_insert_verbose after hbefore

/-- Before the precision and behind it the switch can be added, between the two it
    cannot. -/
theorem verbose_adds_trace_precision :
    let args := ["--precision", "3"]
    let o : Options := { precision := some 3 }
    let text := "let a = 2\na / 0 + 1\nset a = 3\n".toList
    parse (fun _ => false) args = .ok o ∧ parse (fun _ => false) ("-v" :: args) = .ok o.loud ∧
      parse (fun _ => false) ["--precision", "-v", "3"] = .error .refused ∧
      o.AddsTrace text (converse o text) (converse o.loud text) ∧
      (converse o.loud text).changes.drop 9 = [.declared "a" 2 false, .assigned "a" 3 2] := by
  intro args o text
  obtain ⟨hfront, -, htrace⟩ := verbose_adds_trace (fun _ => false) args
  have hargs : parse (fun _ => false) args = .ok o := by rfl
  have hinside : parse (fun _ => false) ["--precision", "-v", "3"] = .error .refused := by rfl
  have hchanges : (converse o.loud text).changes.drop 9 =
      [.declared "a" 2 false, .assigned "a" 3 2] := by decide +kernel
  refine ⟨hargs, ?_, hinside, htrace o hargs rfl text, hchanges⟩
  rw [hfront, hargs]
  rfl

end Calculator.CommandLine
