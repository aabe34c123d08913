import Calculator.Proofs.Text.Motion

/-! # The line that a cursor stands on

    A cursor that reads a text has its whole current line, from the line feed
    before it to its own (`Cursor.In`, `Cursor.In.isLine`). It goes on to the
    next line only from the end of the current one. So while it stands in front
    of the line feed it is kept on its line (`Cursor.Inside`), and a line without
    one is left for the end of the text only.
-/

namespace Calculator.Text

/-- `line` is a line of the text, with `before` in front of it and `after`
    behind it. -/
structure IsLine (text before line after : List Char) : Prop where
  split : before ++ (line ++ after) = text
  /-- The line begins where the text begins or behind a line feed. -/
  begins : before = [] ∨ before.getLast? = some '\n'
  /-- Only the last line may lack its line feed. -/
  ends : after = [] ∨ line.getLast? = some '\n'
  /-- There is no other line feed in it. -/
  single : '\n' ∉ line.dropLast

/-- A text ends as its last part does. -/
theorem getLast?_append_of_ne_nil (cs : List Char) {ds : List Char} (hne : ds ≠ []) :
    (cs ++ ds).getLast? = ds.getLast? := by
  rw [List.getLast?_append, List.getLast?_eq_some_getLast hne, Option.some_or]

/-- In a text whose last line has a line feed every line has one. -/
theorem IsLine.getLast? {text before line after : List Char} (h : IsLine text before line after)
    (hne : line ≠ []) (htext : text.getLast? = some '\n') : line.getLast? = some '\n' := by
  obtain hafter | hline := h.ends
  · rw [← h.split, hafter, List.append_nil, getLast?_append_of_ne_nil _ hne] at htext
    exact htext
  · exact hline

namespace Cursor

variable {text L A : List Char} {c : Cursor}

/-! ## Cursors in a text -/

/-- The cursor reads the text. What it has of the text begins with a line. -/
structure In (text : List Char) (c : Cursor) : Prop where
  tidy : c.Tidy
  begins : ∃ before, before ++ (c.line ++ c.unread) = text ∧
    (c.line ++ c.unread ≠ [] → before = [] ∨ before.getLast? = some '\n')

theorem in_ofText (text : List Char) : (ofText text).In text :=
  ⟨tidy_ofText text, [], rfl, fun _ => .inl rfl⟩

theorem In.advance (h : c.In text) (n : Nat) : (c.advance n).In text := ⟨h.tidy, h.begins⟩

theorem In.refill (h : c.In text) : c.refill.In text := by
  refine ⟨h.tidy.refill, ?_⟩
  unfold Cursor.refill
  split
  · exact h.begins
  · obtain ⟨before, hsplit, hbegins⟩ := h.begins
    refine ⟨before ++ c.line, ?_, ?_⟩
    · rw [List.append_assoc, splitLine_append]
      exact hsplit
    · -- The next line begins behind the line feed of the current one, if there is one.
      rw [splitLine_append]
      intro hunread
      by_cases hline : c.line = []
      · rw [hline, List.append_nil]
        exact hbegins (by simp [hunread])
      · right
        rw [getLast?_append_of_ne_nil _ hline]
        exact c.line_ends hunread hline

theorem In.pass (h : c.In text) (n : Nat) : (c.pass n).In text := by
  induction n generalizing c with
  | zero => exact h
  | succ n ih => exact ih (h.refill.advance 1)

theorem In.skipThrough (h : c.In text) (stop : Char → Bool) : (c.skipThrough stop).2.In text := by
  unfold Cursor.skipThrough
  dsimp only
  split
  · exact h.pass _
  · exact (h.pass _).refill

/-- The current line is a line of the text. -/
theorem In.isLine (h : c.In text) (hline : c.line ≠ []) :
    ∃ before, IsLine text before c.line c.unread := by
  obtain ⟨before, hsplit, hbegins⟩ := h.begins
  refine ⟨before, hsplit, hbegins (by simp [hline]), ?_, h.tidy⟩
  by_cases hunread : c.unread = []
  · exact .inl hunread
  · exact .inr (c.line_ends hunread hline)

/-! ## Staying on a line -/

/-- The cursor is on the line `L`, with `A` behind it, or at the end of a text
    whose last line `L` was and had no line feed. -/
def Keeps (L A : List Char) (c : Cursor) : Prop :=
  (c.line = L ∧ c.unread = A) ∨ (c.ended = true ∧ A = [] ∧ L.getLast? ≠ some '\n')

/-- The cursor is kept on the line, and the line feed, if there is one, is still
    ahead. -/
def Inside (L A : List Char) (c : Cursor) : Prop :=
  c.Keeps L A ∧ (L.getLast? = some '\n' → c.ahead ≠ [])

theorem keeps_self (c : Cursor) : c.Keeps c.line c.unread := .inl ⟨rfl, rfl⟩

/-- A cursor that is kept on a line of the text is in the text. -/
theorem Keeps.in {before : List Char} (h : c.Keeps L A) (hline : IsLine text before L A) :
    c.In text := by
  obtain ⟨rfl, rfl⟩ | ⟨hended, -, -⟩ := h
  · exact ⟨hline.single, before, hline.split, fun _ => hline.begins⟩
  · obtain ⟨hline, hunread⟩ := c.ended_empty hended
    exact ⟨by simp [Tidy, hline], text, by simp [hline, hunread], by simp [hline, hunread]⟩

/-- The line of the cursor is known, up to the end of the text. -/
theorem Keeps.line_eq (h : c.Keeps L A) : c.line = if c.ended then [] else L := by
  split
  · next hended => exact (c.ended_empty hended).1
  · next hended =>
    obtain ⟨hline, -⟩ | ⟨hended', -⟩ := h
    · exact hline
    · exact absurd hended' hended

/-- Behind a line with a line feed the text does not end unnoticed. -/
theorem Keeps.not_ended (h : c.Keeps L A) (hL : L.getLast? = some '\n') : c.ended = false := by
  obtain ⟨rfl, -⟩ | ⟨-, -, hL'⟩ := h
  · cases hended : c.ended with
    | false => rfl
    | true => rw [(c.ended_empty hended).1] at hL; cases hL
  · exact absurd hL hL'

/-- The line feed is at the end of what is ahead. -/
theorem getLast?_ahead (h : c.ahead ≠ []) : c.ahead.getLast? = c.line.getLast? := by
  have hcolumn : c.column < c.line.length := by simpa [ahead, List.drop_eq_nil_iff] using h
  rw [ahead, List.getLast?_drop, if_neg (by omega)]

/-- Passing over other characters leaves the line feed ahead. -/
theorem Inside.advance (h : c.Inside L A) {n : Nat} (hn : '\n' ∉ c.ahead.take n) :
    (c.advance n).Inside L A := by
  refine ⟨h.1, fun hL => ?_⟩
  have hahead := h.2 hL
  have hlast : c.ahead.getLast? = some '\n' := by
    obtain ⟨rfl, -⟩ | ⟨-, -, hL'⟩ := h.1
    · rw [getLast?_ahead hahead, hL]
    · exact absurd hL hL'
  rw [ahead_advance]
  intro hnil
  -- all that was ahead would have been passed over, its line feed too
  rw [List.take_of_length_le (List.drop_eq_nil_iff.1 hnil)] at hn
  exact hn (List.mem_of_getLast? hlast)

/-- In front of the line feed no other line is read. -/
theorem Inside.refill (h : c.Inside L A) (hne : L ≠ []) : c.refill.Inside L A := by
  by_cases hstay : (c.ended || decide (c.column < c.line.length)) = true
  · rwa [Cursor.refill, if_pos hstay]
  · -- The line has been read to its end, so it has no line feed and is the last one.
    simp only [Bool.or_eq_true, decide_eq_true_eq, not_or, Nat.not_lt] at hstay
    obtain ⟨hended, hcolumn⟩ := hstay
    obtain ⟨rfl, rfl⟩ | ⟨hended', -⟩ := h.1
    · have hL : c.line.getLast? ≠ some '\n' := fun hL =>
        h.2 hL (by rw [ahead, List.drop_eq_nil_iff]; exact hcolumn)
      have hunread : c.unread = [] :=
        Classical.byContradiction fun hunread => hL (c.line_ends hunread hne)
      refine ⟨.inr ⟨?_, hunread, hL⟩, fun hL' => absurd hL' hL⟩
      rw [Cursor.refill, if_neg (by simp [hended, hcolumn])]
      simp [hunread]
    · exact absurd hended' hended

end Cursor

end Calculator.Text
