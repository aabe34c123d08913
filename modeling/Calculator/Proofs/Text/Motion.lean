import Calculator.Text.Cursor

/-! # How a cursor moves

    Reading lines never shows in the text that is left: passing over characters
    drops them from it, and skipping through a character drops everything up to
    it (`rest_pass`, `rest_skipThrough`).

    Where the lines are only matters for the place of a token. Behind a line
    feed the cursor stands before a new line, whatever was read before: it is
    `Fresh`, and from there on it does what a cursor before the text that is
    left does.
-/

namespace Calculator.Text

/-- What is left behind the longest start of a kind. -/
theorem drop_length_takeWhile {α : Type} (p : α → Bool) (l : List α) :
    l.drop (l.takeWhile p).length = l.dropWhile p := by
  conv => lhs; arg 2; rw [← List.takeWhile_append_dropWhile (p := p) (l := l)]
  exact List.drop_left

namespace Cursor

/-! ## The text that is left -/

/-- The current line reaches to the end of the text or to a line feed. -/
theorem refill_line_whole (c : Cursor) :
    c.refill.unread = [] ∨ c.refill.ahead.getLast? = some '\n' := by
  by_cases hrest : c.rest = []
  · -- there is no text left, and no line of it
    left
    rw [← rest_refill, rest, List.append_eq_nil_iff] at hrest
    exact hrest.2
  · by_cases hunread : c.refill.unread = []
    · exact .inl hunread
    · right
      have hahead : c.refill.ahead ≠ [] := fun h => hrest (ahead_refill_eq_nil.1 h)
      have hcolumn : c.refill.column < c.refill.line.length := by
        simpa [ahead, List.drop_eq_nil_iff] using hahead
      have hline : c.refill.line ≠ [] := by
        intro h
        rw [h] at hcolumn
        simp at hcolumn
      rw [ahead, List.getLast?_drop, if_neg (by omega)]
      exact c.refill.line_ends hunread hline

/-- In front of a character no line is read. -/
theorem refill_of_ahead {c : Cursor} (h : c.ahead ≠ []) : c.refill = c := by
  have hcolumn : c.column < c.line.length := by simpa [ahead, List.drop_eq_nil_iff] using h
  rw [refill, if_pos (by simp [hcolumn])]

/-- Behind the end of the text no line is read. -/
theorem refill_of_ended {c : Cursor} (h : c.ended = true) : c.refill = c := by
  rw [refill, if_pos (by simp [h])]

/-- The first character ahead is the first one that is left. -/
theorem head?_ahead_refill (c : Cursor) : c.refill.ahead.head? = c.rest.head? := by
  by_cases h : c.rest = []
  · rw [h, ahead_refill_eq_nil.2 h]
  · have hahead : c.refill.ahead ≠ [] := fun hnil => h (ahead_refill_eq_nil.1 hnil)
    obtain ⟨first, after, hcons⟩ := List.exists_cons_of_ne_nil hahead
    rw [← rest_refill, rest, hcons]
    rfl

/-- Passing over one character drops it. -/
theorem rest_refill_advance_one (c : Cursor) : (c.refill.advance 1).rest = c.rest.drop 1 := by
  by_cases hrest : c.rest = []
  · -- At the end of the text the column moves on, but there is nothing to drop.
    have hahead := ahead_refill_eq_nil.2 hrest
    have hunread : c.refill.unread = [] := by
      rw [← rest_refill, rest, List.append_eq_nil_iff] at hrest
      exact hrest.2
    rw [hrest, rest, ahead_advance, hahead]
    simpa [advance] using hunread
  · have hahead : c.refill.ahead ≠ [] := fun h => hrest (ahead_refill_eq_nil.1 h)
    rw [rest_advance (List.length_pos_iff.2 hahead), rest_refill]

theorem rest_pass (n : Nat) (c : Cursor) : (c.pass n).rest = c.rest.drop n := by
  -- Induction on the number of characters, with a new line supplied before each of them.
  induction n generalizing c with
  | zero => rfl
  | succ n ih => rw [pass, ih, rest_refill_advance_one, List.drop_drop, Nat.add_comm]

/-- Skipping counts the characters in front of the one that is looked for. -/
theorem fst_skipThrough (stop : Char → Bool) (c : Cursor) :
    (c.skipThrough stop).1 = (c.rest.takeWhile (!stop ·)).length := by
  unfold skipThrough
  dsimp only
  split
  · rfl
  · rfl

/-- Skipping drops the characters up to the one that is looked for, and that
    one with them. -/
theorem rest_skipThrough (stop : Char → Bool) (c : Cursor) :
    (c.skipThrough stop).2.rest = (c.rest.dropWhile (!stop ·)).drop 1 := by
  have hdrop := drop_length_takeWhile (!stop ·) c.rest
  unfold skipThrough
  dsimp only
  split
  · rw [rest_pass, ← List.drop_drop, hdrop]
  · next h =>
    -- the character that is looked for does not occur
    have hnil : c.rest.dropWhile (!stop ·) = [] := by
      rw [← hdrop]
      exact List.drop_eq_nil_of_le (by omega)
    rw [rest_refill, rest_pass, hdrop, hnil]
    rfl

/-! ## Line feeds end lines -/

/-- A line feed stands at the end of the current line only. -/
def Tidy (c : Cursor) : Prop := '\n' ∉ c.line.dropLast

theorem newline_not_mem_dropLast_splitLine (cs : List Char) :
    '\n' ∉ (splitLine cs).1.dropLast := by
  induction cs with
  | nil => simp [splitLine]
  | cons c rest ih =>
    unfold splitLine
    split
    · simp
    · next hc =>
      dsimp only
      cases hline : (splitLine rest).1 with
      | nil => simp
      | cons d ds =>
        -- `c` is no line feed, and in the line behind it one stands at the end only
        rw [hline] at ih
        rw [List.dropLast_cons_of_ne_nil (List.cons_ne_nil _ _), List.mem_cons, not_or]
        exact ⟨fun h => hc h.symm, ih⟩

theorem tidy_ofText (text : List Char) : (ofText text).Tidy := by simp [Tidy, ofText]

theorem Tidy.refill {c : Cursor} (h : c.Tidy) : c.refill.Tidy := by
  unfold Cursor.refill
  split
  · exact h
  · exact newline_not_mem_dropLast_splitLine c.unread

theorem Tidy.advance {c : Cursor} (h : c.Tidy) (n : Nat) : (c.advance n).Tidy := h

theorem Tidy.pass {c : Cursor} (h : c.Tidy) (n : Nat) : (c.pass n).Tidy := by
  induction n generalizing c with
  | zero => exact h
  | succ n ih => exact ih (h.refill.advance 1)

theorem Tidy.skipThrough {c : Cursor} (h : c.Tidy) (stop : Char → Bool) :
    (c.skipThrough stop).2.Tidy := by
  unfold Cursor.skipThrough
  dsimp only
  split
  · exact h.pass _
  · exact (h.pass _).refill

/-! ## Cursors before a new line -/

/-- The cursor wants the next line as if nothing had been read. -/
def Fresh (c : Cursor) : Prop := c.refill = (ofText c.rest).refill

/-- The next line is wanted where the current one has no character left. -/
theorem fresh_of_ahead_eq_nil {c : Cursor} (h : c.ahead = []) (hended : c.ended = false) :
    c.Fresh := by
  have hcolumn : ¬ c.column < c.line.length := by
    simpa [ahead, List.drop_eq_nil_iff] using h
  have hrest : c.rest = c.unread := by rw [rest, h, List.nil_append]
  rw [Fresh, hrest]
  unfold refill
  rw [if_neg (by simp [hended, hcolumn]), if_neg (by simp [ofText])]
  rfl

/-- Behind a line feed the cursor stands before a new line. -/
theorem Tidy.fresh_advance {c : Cursor} (h : c.Tidy) (hahead : c.ahead.head? = some '\n') :
    (c.advance 1).Fresh := by
  obtain ⟨after, hahead⟩ := List.head?_eq_some_iff.1 hahead
  have hended : c.ended = false := by
    by_cases he : c.ended = true
    · rw [ahead, (c.ended_empty he).1] at hahead
      simp at hahead
    · simpa using he
  have hline : c.line = c.line.take c.column ++ '\n' :: after := by
    rw [← hahead, ahead, List.take_append_drop]
  -- the line feed stands at the end of the line, since the cursor is tidy
  have hafter : after = [] := by
    cases after with
    | nil => rfl
    | cons d ds =>
      refine absurd ?_ h
      rw [hline, List.dropLast_append_of_ne_nil (by simp)]
      simp
  refine fresh_of_ahead_eq_nil ?_ hended
  rw [ahead_advance, hahead, hafter]
  rfl

/-- Passing a line feed last leaves the cursor before a new line. -/
theorem Tidy.fresh_pass {c : Cursor} (h : c.Tidy) {n : Nat}
    (hn : (c.rest.drop n).head? = some '\n') : (c.pass (n + 1)).Fresh := by
  -- Induction on the characters in front of the line feed.
  induction n generalizing c with
  | zero =>
    refine h.refill.fresh_advance ?_
    have hahead : c.refill.ahead ≠ [] := by
      intro hnil
      rw [ahead_refill_eq_nil.1 hnil] at hn
      simp at hn
    obtain ⟨first, after, hcons⟩ := List.exists_cons_of_ne_nil hahead
    rw [List.drop_zero, ← rest_refill, rest, hcons] at hn
    rw [hcons]
    exact hn
  | succ n ih =>
    refine ih (c := c.refill.advance 1) (h.refill.advance 1) ?_
    rw [rest_refill_advance_one, List.drop_drop, Nat.add_comm]
    exact hn

/-- Skipping through a line feed leaves the cursor before a new line. -/
theorem Tidy.fresh_skipThrough {c : Cursor} (h : c.Tidy) {stop : Char → Bool}
    (hn : (c.rest.dropWhile (!stop ·)).head? = some '\n') : (c.skipThrough stop).2.Fresh := by
  rw [← drop_length_takeWhile] at hn
  unfold Cursor.skipThrough
  dsimp only
  split
  · exact h.fresh_pass hn
  · next hlength =>
    rw [List.drop_eq_nil_of_le (by omega)] at hn
    cases hn

end Cursor

end Calculator.Text
