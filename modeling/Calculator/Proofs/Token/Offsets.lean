import Calculator.Proofs.Text.Longer
import Calculator.Proofs.Token.Lexing

/-! # Lines and offsets

    A cursor has one line of its text at a time, and a place between two lines has
    two forms. None of this shows to a reader that looks at characters, takes
    numbers and words, and passes over characters that it has looked at: the
    answers are those of a single offset into the whole text
    (`buffered_refines_plain`).

    Cursor and offset are each a `Source`. What has to be proved of the cursor is
    that one step keeps it at the place that the offset stands for
    (`Cursor.Denotes`); a simulation of sources then carries whole histories over
    (`Source.Simulates.reads`).
-/

namespace Calculator.Text

/-! ## The lines of a text -/

/-- The lines of a text, each with its line feed. -/
def lines : List Char → List (List Char)
  | [] => []
  | c :: rest =>
    if c = '\n' then [c] :: lines rest
    else
      match lines rest with
      | [] => [[c]]
      | line :: more => (c :: line) :: more

/-- The first line, and the lines of the text behind it. -/
theorem lines_of_ne_nil {cs : List Char} (h : cs ≠ []) :
    lines cs = (splitLine cs).1 :: lines (splitLine cs).2 := by
  induction cs with
  | nil => contradiction
  | cons c rest ih =>
    by_cases hc : c = '\n'
    · simp [lines, splitLine, hc]
    · by_cases hrest : rest = []
      · simp [lines, splitLine, hc, hrest]
      · simp [lines, splitLine, hc, ih hrest]

theorem flatten_lines (cs : List Char) : (lines cs).flatten = cs := by
  induction cs with
  | nil => rfl
  | cons c rest ih =>
    unfold lines
    split
    · simp [ih]
    · split <;> next hrest => simp [hrest] at ih; simp [← ih]

/-! ## Sources -/

/-- A kind of lexeme that can be asked for. -/
inductive Pattern where
  | number
  | word

/-- The lexeme of the kind at the start of a text. -/
def Pattern.find? : Pattern → List Char → Option (List Char)
  | .number => fun cs => (Numeral.scan? cs).map Numeral.text
  | .word => Token.scanWord?

theorem Pattern.prefix_of_find? {p : Pattern} {cs lexeme : List Char}
    (h : p.find? cs = some lexeme) : lexeme <+: cs := by
  cases p with
  | number =>
    obtain ⟨n, hn, rfl⟩ := Option.map_eq_some_iff.1 h
    exact Numeral.text_prefix hn
  | word => exact (Token.scanWord?_prefix h).1

/-- No lexeme reaches over a terminator. -/
theorem Pattern.find?_append (p : Pattern) {z : List Char} (hz : Detached z) (cs : List Char) :
    p.find? (cs ++ z) = p.find? cs := by
  cases p with
  | number => simp only [find?, Numeral.scan?_append hz]
  | word => exact Token.scanWord?_append hz cs

/-- At the end of the text no lexeme is found. -/
theorem Pattern.find?_nil (p : Pattern) : p.find? [] = none := by
  cases p <;> rfl

/-- Something that a text can be read from, step by step. -/
structure Source (σ : Type) where
  start : σ
  /-- Looks at the next character; there is none at the end. -/
  peek : σ → Option Char × σ
  /-- Takes a lexeme, if there is one of the kind. -/
  take : Pattern → σ → Option (List Char) × σ
  /-- Passes over one character. -/
  advance : σ → σ

/-- A step that was made, with its answer. -/
inductive Event where
  | peeked (c : Option Char)
  | took (p : Pattern) (lexeme : Option (List Char))
  /-- The character that was looked at is passed over. -/
  | passed (c : Char)

/-- The characters that a step leaves behind. -/
def Event.chars : Event → List Char
  | .peeked _ => []
  | .took _ lexeme => lexeme.getD []
  | .passed c => [c]

/-- The characters that were left behind. -/
def consumed (es : List Event) : List Char := es.flatMap Event.chars

/-- The step finds the text at its end. -/
def Event.AtEnd : Event → Prop
  | .peeked c => c = none
  | .took _ lexeme => lexeme = none
  | .passed _ => False

namespace Source

variable {σ τ : Type} {S : Source σ} {T : Source τ} {es : List Event} {view : Option Char}

/-- The steps `es` lead to the state `s`, with the character `view` in view. Steps are
    made in any order, but only a character in view is passed over: one that was
    looked at, with nothing taken or passed over since. -/
inductive Reads (S : Source σ) : List Event → (view : Option Char) → σ → Prop where
  | start : Reads S [] none S.start
  | peek {es : List Event} {view : Option Char} {s : σ} (h : Reads S es view s) :
    Reads S (es ++ [.peeked (S.peek s).1]) (S.peek s).1 (S.peek s).2
  | take {es : List Event} {view : Option Char} {s : σ} (p : Pattern) (h : Reads S es view s) :
    Reads S (es ++ [.took p (S.take p s).1]) ((S.take p s).1.elim view fun _ => none)
      (S.take p s).2
  | advance {es : List Event} {c : Char} {s : σ} (h : Reads S es (some c) s) :
    Reads S (es ++ [.passed c]) none (S.advance s)

/-- A lexeme that is known, or known to be missing, is taken. -/
theorem Reads.take_of_eq {s s' : σ} {p : Pattern} {found : Option (List Char)}
    (h : S.Reads es view s) (htake : S.take p s = (found, s')) :
    S.Reads (es ++ [.took p found]) (found.elim view fun _ => none) s' := by
  simpa [htake] using h.take p

/-- The sources give the same answers in related states, and stay related. -/
structure Simulates (S : Source σ) (T : Source τ) (R : Option Char → σ → τ → Prop) : Prop where
  start : R none S.start T.start
  peek : ∀ {view s t}, R view s t →
    (S.peek s).1 = (T.peek t).1 ∧ R (S.peek s).1 (S.peek s).2 (T.peek t).2
  take : ∀ p {view s t}, R view s t → (S.take p s).1 = (T.take p t).1 ∧
    R ((S.take p s).1.elim view fun _ => none) (S.take p s).2 (T.take p t).2
  advance : ∀ {c s t}, R (some c) s t → R none (S.advance s) (T.advance t)

variable {R : Option Char → σ → τ → Prop}

theorem Simulates.symm (h : Simulates S T R) : Simulates T S fun view t s => R view s t where
  start := h.start
  peek := by
    intro view t s hR
    obtain ⟨hanswer, hnext⟩ := h.peek hR
    rw [← hanswer]
    exact ⟨rfl, hnext⟩
  take := by
    intro p view t s hR
    obtain ⟨hanswer, hnext⟩ := h.take p hR
    rw [← hanswer]
    exact ⟨rfl, hnext⟩
  advance := h.advance

/-- A history of the one source is one of the other. -/
theorem Simulates.reads (h : Simulates S T R) {s : σ} (hs : S.Reads es view s) :
    ∃ t, T.Reads es view t ∧ R view s t := by
  induction hs with
  | start => exact ⟨T.start, .start, h.start⟩
  | peek _ ih =>
    obtain ⟨t, ht, hR⟩ := ih
    obtain ⟨hanswer, hnext⟩ := h.peek hR
    rw [hanswer] at hnext ⊢
    exact ⟨_, ht.peek, hnext⟩
  | take p _ ih =>
    obtain ⟨t, ht, hR⟩ := ih
    obtain ⟨hanswer, hnext⟩ := h.take p hR
    rw [hanswer] at hnext ⊢
    exact ⟨_, ht.take p, hnext⟩
  | advance _ ih =>
    obtain ⟨t, ht, hR⟩ := ih
    exact ⟨_, ht.advance, h.advance hR⟩

end Source

/-- A cursor that reads the text line by line. -/
def buffered (text : List Char) : Source Cursor where
  start := .ofText text
  peek := Cursor.peek
  take p := Cursor.take p.find?
  advance := (·.advance 1)

/-- An offset into the whole text. -/
def plain (text : List Char) : Source Nat where
  start := 0
  peek n := (text[n]?, n)
  take p n :=
    match p.find? (text.drop n) with
    | some lexeme => (some lexeme, n + lexeme.length)
    | none => (none, n)
  advance n := n + 1

variable {text : List Char} {es : List Event} {view : Option Char} {n : Nat}

/-! ## Histories of an offset -/

/-- What was left behind is the text in front of the offset, and the character in
    view is the one behind it. -/
theorem consumed_of_reads (h : (plain text).Reads es view n) :
    consumed es = text.take n ∧ n ≤ text.length ∧ ∀ c, view = some c → text[n]? = some c := by
  induction h with
  | start => exact ⟨rfl, Nat.zero_le _, by simp⟩
  | @peek es view n _ ih =>
    obtain ⟨hconsumed, hle, -⟩ := ih
    refine ⟨?_, hle, fun c hc => hc⟩
    show consumed (es ++ [.peeked text[n]?]) = text.take n
    simpa [consumed, Event.chars] using hconsumed
  | @take es view n p _ ih =>
    obtain ⟨hconsumed, hle, hview⟩ := ih
    cases hfind : p.find? (text.drop n) with
    | none =>
      simp only [plain, hfind, Option.elim_none]
      exact ⟨by simpa [consumed, Event.chars] using hconsumed, hle, hview⟩
    | some lexeme =>
      have hprefix := p.prefix_of_find? hfind
      have hlength := hprefix.length_le
      rw [List.length_drop] at hlength
      simp only [plain, hfind, Option.elim_some]
      refine ⟨?_, by omega, by simp⟩
      rw [List.take_add, ← List.prefix_iff_eq_take.1 hprefix, ← hconsumed]
      simp [consumed, Event.chars]
  | @advance es c n _ ih =>
    obtain ⟨hconsumed, -, hview⟩ := ih
    have hc := hview c rfl
    obtain ⟨hlt, -⟩ := List.getElem?_eq_some_iff.1 hc
    refine ⟨?_, hlt, by simp⟩
    show consumed (es ++ [.passed c]) = text.take (n + 1)
    rw [List.take_add_one, hc, ← hconsumed]
    simp [consumed, Event.chars]

/-- Behind a look at the end of the text, the offset is there. -/
theorem at_end_of_reads (h : (plain text).Reads es view n) (hend : .peeked none ∈ es) :
    text.length ≤ n ∧ view = none := by
  induction h with
  | start => cases hend
  | @peek es view n _ ih =>
    have hle : text.length ≤ n := by
      rcases List.mem_append.1 hend with hend | hend
      · exact (ih hend).1
      · simpa [plain, eq_comm] using hend
    exact ⟨hle, List.getElem?_eq_none hle⟩
  | @take es view n p _ ih =>
    have hend : .peeked none ∈ es := by simpa using hend
    obtain ⟨hle, rfl⟩ := ih hend
    cases hfind : p.find? (text.drop n) with
    | none =>
      simp only [plain, hfind]
      exact ⟨hle, rfl⟩
    | some lexeme =>
      simp only [plain, hfind]
      exact ⟨by omega, rfl⟩
  | @advance es c n _ ih =>
    have hend : .peeked none ∈ es := by simpa using hend
    obtain ⟨-, hview⟩ := ih hend
    cases hview

/-- Once the end of the text was found, every later step finds it. -/
theorem pairwise_of_reads (h : (plain text).Reads es view n) :
    es.Pairwise fun e f => e = .peeked none → f.AtEnd := by
  induction h with
  | start => exact .nil
  | @peek es view n h ih =>
    refine List.pairwise_append.2 ⟨ih, List.pairwise_singleton _ _, ?_⟩
    intro e he f hf hpeeked
    have hle := (at_end_of_reads h (hpeeked ▸ he)).1
    rw [List.mem_singleton.1 hf]
    exact List.getElem?_eq_none hle
  | @take es view n p h ih =>
    refine List.pairwise_append.2 ⟨ih, List.pairwise_singleton _ _, ?_⟩
    intro e he f hf hpeeked
    have hle := (at_end_of_reads h (hpeeked ▸ he)).1
    rw [List.mem_singleton.1 hf]
    simp [Event.AtEnd, plain, List.drop_eq_nil_of_le hle, p.find?_nil]
  | @advance es c n h ih =>
    refine List.pairwise_append.2 ⟨ih, List.pairwise_singleton _ _, ?_⟩
    intro e he f hf hpeeked
    have hview := (at_end_of_reads h (hpeeked ▸ he)).2
    cases hview

/-! ## The offset of a cursor -/

namespace Cursor

variable {c : Cursor}

/-- The offset that the cursor stands for: its column on the line that it read
    last. -/
inductive Denotes (text : List Char) (c : Cursor) : Nat → Prop where
  /-- No line has been read. -/
  | unread (line : c.line = []) (unread : c.unread = text) (column : c.column = 0)
    (ended : c.ended = false) : Denotes text c 0
  /-- The lines `earlier` were read before this one. -/
  | onLine {earlier : List (List Char)} (split : lines text = earlier ++ c.line :: lines c.unread)
    (within : c.column ≤ c.line.length) (ended : c.ended = false) :
    Denotes text c (earlier.flatten.length + c.column)
  /-- The end of the text was read, which is an empty line. -/
  | ended (ended : c.ended = true) (column : c.column = 0) : Denotes text c text.length

theorem Denotes.rest (h : c.Denotes text n) : c.rest = text.drop n := by
  cases h with
  | unread line unread column _ => simp [Cursor.rest, ahead, line, unread]
  | @onLine earlier split within _ =>
    have htext : text = earlier.flatten ++ (c.line ++ c.unread) := by
      have hflatten := congrArg List.flatten split
      simpa [flatten_lines] using hflatten
    rw [htext, List.drop_append, List.drop_eq_nil_of_le (Nat.le_add_right _ _), List.nil_append,
      Nat.add_sub_cancel_left, List.drop_append_of_le_length within]
    rfl
  | ended ended _ =>
    obtain ⟨hline, hunread⟩ := c.ended_empty ended
    simp [Cursor.rest, ahead, hline, hunread]

/-- Reading the next line does not move the offset. -/
theorem Denotes.refill (h : c.Denotes text n) : c.refill.Denotes text n := by
  cases h with
  | unread line unread column ended =>
    obtain ⟨hline, hcolumn, hunread, hended⟩ :=
      refill_of_line_end (c := c) (by simp [ahead, line]) ended
    rw [unread] at hline hunread hended
    by_cases htext : text = []
    · subst htext
      exact .ended hended hcolumn
    · have hfirst : lines text = [] ++ c.refill.line :: lines c.refill.unread := by
        rw [hline, hunread]
        exact lines_of_ne_nil htext
      have hdenotes := Denotes.onLine hfirst (by simp [hcolumn]) (by simp [hended, htext])
      simpa [hcolumn] using hdenotes
  | @onLine earlier split within ended =>
    by_cases hahead : c.ahead = []
    · -- The line has been read to its end, where the next one or the end of the text begins.
      obtain ⟨hline, hcolumn, hunread, hended⟩ := refill_of_line_end hahead ended
      have hlength : c.column = c.line.length :=
        Nat.le_antisymm within (List.drop_eq_nil_iff.1 hahead)
      by_cases hnil : c.unread = []
      · have htext : text.length = earlier.flatten.length + c.column := by
          have hflatten := congrArg List.flatten split
          rw [flatten_lines, hnil] at hflatten
          simp [hflatten, hlength, lines]
        rw [← htext]
        exact .ended (by simp [hended, hnil]) hcolumn
      · have hnext : lines text =
            (earlier ++ [c.line]) ++ c.refill.line :: lines c.refill.unread := by
          rw [split, hline, hunread, lines_of_ne_nil hnil]
          simp
        have hdenotes := Denotes.onLine hnext (by simp [hcolumn]) (by simp [hended, hnil])
        simpa [hcolumn, hlength] using hdenotes
    · rw [refill_of_ahead hahead]
      exact .onLine split within ended
  | ended ended column =>
    rw [refill_of_ended ended]
    exact .ended ended column

/-- Within the line the offset moves with the column. -/
theorem Denotes.advance (h : c.Denotes text n) {k : Nat} (hk : k ≤ c.ahead.length) :
    (c.advance k).Denotes text (n + k) := by
  cases h with
  | unread line unread column ended =>
    obtain rfl : k = 0 := by simpa [ahead, line] using hk
    exact .unread line unread column ended
  | @onLine earlier split within ended =>
    rw [Nat.add_assoc]
    have hwithin : c.column + k ≤ c.line.length := by
      rw [ahead, List.length_drop] at hk
      omega
    exact .onLine (c := c.advance k) split hwithin ended
  | ended ended column =>
    obtain rfl : k = 0 := by simpa [ahead, (c.ended_empty ended).1] using hk
    exact .ended ended column

/-- A lexeme on the line is the one in the whole text. -/
theorem find?_ahead_refill (p : Pattern) (c : Cursor) :
    p.find? c.refill.ahead = p.find? c.rest := by
  rw [← rest_refill, Cursor.rest]
  rcases c.refill_line_whole with hunread | hfeed
  · rw [hunread, List.append_nil]
  · -- What is behind the line feed does not matter, and neither does the line feed.
    obtain ⟨before, hbefore⟩ := List.getLast?_eq_some_iff.1 hfeed
    rw [hbefore, List.append_assoc, List.singleton_append, p.find?_append (detached_cons rfl),
      p.find?_append (detached_cons rfl)]

/-- The cursor stands at the offset, and a character in view is ahead of it. -/
structure Stands (text : List Char) (view : Option Char) (c : Cursor) (n : Nat) : Prop where
  denotes : c.Denotes text n
  ahead : ∀ x, view = some x → c.ahead.head? = some x

/-- The cursor takes every step that the offset takes. -/
theorem simulates (text : List Char) :
    Source.Simulates (buffered text) (plain text) (Stands text) where
  start := ⟨.unread rfl rfl rfl rfl, by simp⟩
  peek := by
    intro view c n h
    have hanswer : c.refill.ahead.head? = text[n]? := by
      rw [head?_ahead_refill, h.denotes.rest, List.head?_drop]
    exact ⟨hanswer, h.denotes.refill, fun x hx => hx⟩
  take := by
    intro p view c n h
    have hfind : p.find? c.refill.ahead = p.find? (text.drop n) := by
      rw [find?_ahead_refill, h.denotes.rest]
    simp only [buffered, plain, take, hfind]
    cases hlexeme : p.find? (text.drop n) with
    | none =>
      refine ⟨rfl, h.denotes.refill, ?_⟩
      intro x hx
      -- what is in view is on the line already
      have hahead := h.ahead x hx
      have hne : c.ahead ≠ [] := by
        intro hnil
        simp [hnil] at hahead
      show c.refill.ahead.head? = some x
      rw [refill_of_ahead hne, hahead]
    | some lexeme =>
      have hle := (p.prefix_of_find? (hfind.trans hlexeme)).length_le
      exact ⟨rfl, h.denotes.refill.advance hle, by simp⟩
  advance := by
    intro x c n h
    have hpos : 1 ≤ c.ahead.length := by
      obtain ⟨after, hafter⟩ := List.head?_eq_some_iff.1 (h.ahead x rfl)
      simp [hafter]
    exact ⟨h.denotes.advance hpos, by simp⟩

end Cursor

/-! ## Reading by lines -/

/-- Whatever a reader does with a text that it reads line by line, the answers are
    those of an offset into the whole text, and the other way round. The cursor
    denotes this offset by its column on the line that was read last. What was
    left behind is the text in front of the offset. Once the end was found it is
    found for ever. -/
theorem buffered_refines_plain (text : List Char) :
    (∀ es view c, (buffered text).Reads es view c →
      ∃ n, (plain text).Reads es view n ∧ c.Denotes text n ∧ n ≤ text.length ∧
        consumed es = text.take n) ∧
    (∀ es view n, (plain text).Reads es view n →
      ∃ c, (buffered text).Reads es view c ∧ c.Denotes text n) ∧
    ∀ es view c, (buffered text).Reads es view c →
      es.Pairwise fun e f => e = .peeked none → f.AtEnd := by
  have hsimulates := Cursor.simulates text
  refine ⟨?_, ?_, ?_⟩
  · intro es view c h
    obtain ⟨n, hn, hstands⟩ := hsimulates.reads h
    obtain ⟨hconsumed, hle, -⟩ := consumed_of_reads hn
    exact ⟨n, hn, hstands.denotes, hle, hconsumed⟩
  · intro es view n h
    obtain ⟨c, hc, hstands⟩ := hsimulates.symm.reads h
    exact ⟨c, hc, hstands.denotes⟩
  · intro es view c h
    obtain ⟨n, hn, -⟩ := hsimulates.reads h
    exact pairwise_of_reads hn

/-- The word ends before the line feed, the number begins behind it, and the text
    ends without one. -/
theorem buffered_refines_plain_two_lines :
    let text := ['x', '\n', '.', '5']
    let es : List Event :=
      [.peeked (some 'x'), .took .word (some ['x']), .peeked (some '\n'), .took .number none,
        .passed '\n', .took .number (some ['.', '5']), .peeked none]
    ∃ c, (buffered text).Reads es none c ∧
      (∃ n, (plain text).Reads es none n ∧ c.Denotes text n ∧ n ≤ text.length ∧
        consumed es = text.take n) ∧
      es.Pairwise fun e f => e = .peeked none → f.AtEnd := by
  intro text es
  have hword : (plain text).take .word 0 = (some ['x'], 1) := by decide
  have hfeed : (plain text).take .number 1 = (none, 1) := by decide
  have hnumber : (plain text).take .number 2 = (some ['.', '5'], 4) := by decide
  have hfirst := (Source.Reads.start (S := plain text)).peek.take_of_eq hword
  -- the line feed is in view also after a number was looked for
  have hview : (plain text).Reads _ (some '\n') 1 := hfirst.peek.take_of_eq hfeed
  have hreads : (plain text).Reads es none 4 := (hview.advance.take_of_eq hnumber).peek
  obtain ⟨hrefines, hback, hend⟩ := buffered_refines_plain text
  obtain ⟨c, hc, -⟩ := hback es none 4 hreads
  exact ⟨c, hc, hrefines es none c hc, hend es none c hc⟩

end Calculator.Text
