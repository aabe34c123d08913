import Calculator.Proofs.Text.Lines

/-! # Cursors with more lines behind them

    A text of whole lines ends with a line feed. As long as a cursor in front of
    the line feed moves on, it asks for no other line, whatever it looks for
    (`skipThrough_of_mem`). So a cursor that has more lines behind those of
    another one does the same, with the same lines and columns, until the other
    one is at its end (`Cursor.Longer`).
-/

namespace Calculator.Text

/-! ## Whole lines -/

/-- Every line of the text has its line feed. -/
def WholeLines (cs : List Char) : Prop := cs = [] ∨ cs.getLast? = some '\n'

theorem WholeLines.getLast? {cs : List Char} (h : WholeLines cs) (hne : cs ≠ []) :
    cs.getLast? = some '\n' :=
  h.resolve_left hne

/-- So does every line of an end of the text. -/
theorem WholeLines.of_suffix {cs ds : List Char} (h : WholeLines cs) (hds : ds <:+ cs) :
    WholeLines ds := by
  by_cases hne : ds = []
  · exact .inl hne
  · obtain ⟨front, rfl⟩ := hds
    have hlast := h.getLast? (List.append_ne_nil_of_right_ne_nil _ hne)
    rw [getLast?_append_of_ne_nil _ hne] at hlast
    exact .inr hlast

theorem IsLine.newline {text before line after : List Char} (h : IsLine text before line after)
    (hne : line ≠ []) (htext : WholeLines text) : line.getLast? = some '\n' := by
  refine h.getLast? hne (htext.getLast? ?_)
  rintro rfl
  obtain ⟨-, hrest⟩ := List.append_eq_nil_iff.1 h.split
  exact hne (List.append_eq_nil_iff.1 hrest).1

/-- Behind whole lines the first line is the same, with more text behind it. -/
theorem splitLine_append_of_wholeLines {cs : List Char} (h : WholeLines cs) (hne : cs ≠ [])
    (z : List Char) :
    (splitLine (cs ++ z)).1 = (splitLine cs).1 ∧
      (splitLine (cs ++ z)).2 = (splitLine cs).2 ++ z := by
  induction cs with
  | nil => exact absurd rfl hne
  | cons c rest ih =>
    rw [List.cons_append]
    unfold splitLine
    by_cases hc : c = '\n'
    · rw [if_pos hc, if_pos hc]
      exact ⟨rfl, rfl⟩
    · rw [if_neg hc, if_neg hc]
      have hrest : rest ≠ [] := by
        rintro rfl
        exact hc (Option.some.inj (h.getLast? hne))
      obtain ⟨hline, hafter⟩ := ih (h.of_suffix (List.suffix_cons c rest)) hrest
      exact ⟨congrArg (c :: ·) hline, hafter⟩

namespace Cursor

variable {text L A z : List Char} {c c₁ c₂ : Cursor}

/-! ## Moving on within a line -/

/-- At the end of its line the cursor reads the next line. -/
theorem refill_of_line_end (h : c.ahead = []) (hended : c.ended = false) :
    c.refill.line = (splitLine c.unread).1 ∧ c.refill.column = 0 ∧
      c.refill.unread = (splitLine c.unread).2 ∧ c.refill.ended = c.unread.isEmpty := by
  have hcolumn : c.line.length ≤ c.column := List.drop_eq_nil_iff.1 h
  rw [refill, if_neg (by simp [hended, hcolumn])]
  exact ⟨rfl, rfl, rfl, rfl⟩

/-- At the end of the text that is noticed. -/
theorem ended_refill (h : c.rest = []) : c.refill.ended = true := by
  obtain ⟨hahead, hunread⟩ := List.append_eq_nil_iff.1 h
  cases hended : c.ended with
  | true =>
    rw [refill, if_pos (by simp [hended])]
    exact hended
  | false =>
    rw [(refill_of_line_end hahead hended).2.2.2, hunread]
    rfl

theorem pass_of_le {n : Nat} (h : n ≤ c.ahead.length) : c.pass n = c.advance n := by
  induction n generalizing c with
  | zero => rfl
  | succ n ih =>
    have hahead : c.ahead ≠ [] := List.ne_nil_of_length_pos (by omega)
    have hle : n ≤ (c.advance 1).ahead.length := by
      rw [ahead_advance, List.length_drop]
      omega
    rw [pass, refill_of_ahead hahead, ih hle]
    simp [advance, Nat.add_assoc, Nat.add_comm 1 n]

/-- A character on the line is found there, and the cursor moves just behind it. -/
theorem skipThrough_of_mem {stop : Char → Bool} {x : Char} (hx : x ∈ c.ahead) (hstop : stop x) :
    c.skipThrough stop = ((c.ahead.takeWhile (!stop ·)).length,
      c.advance ((c.ahead.takeWhile (!stop ·)).length + 1)) := by
  have hne : c.ahead.dropWhile (!stop ·) ≠ [] := by
    intro hnil
    have hwhole := List.takeWhile_append_dropWhile (p := (!stop ·)) (l := c.ahead)
    rw [hnil, List.append_nil] at hwhole
    have hother := List.all_eq_true.1 List.all_takeWhile x (hwhole.symm ▸ hx)
    simp [hstop] at hother
  have hlength : (c.ahead.takeWhile (!stop ·)).length < c.ahead.length := by
    have hsum := congrArg List.length
      (List.takeWhile_append_dropWhile (p := (!stop ·)) (l := c.ahead))
    rw [List.length_append] at hsum
    have hpos := List.length_pos_iff.2 hne
    omega
  -- what is behind the line does not matter for the characters in front of the stop
  have htake : c.rest.takeWhile (!stop ·) = c.ahead.takeWhile (!stop ·) := by
    rw [rest, List.takeWhile_append, if_neg (by omega)]
  have hrest := c.length_ahead_le
  unfold skipThrough
  dsimp only
  rw [htake, if_pos (by omega), pass_of_le (by omega)]

/-- More text is read from its first line on. -/
theorem refill_resume (h : c.ended = true) (z : List Char) :
    (c.resume z).refill = (ofText z).refill := by
  obtain ⟨hline, hunread⟩ := c.ended_empty h
  have hahead : (c.resume z).ahead = [] := by simp [resume, ahead, hline]
  have hz : (c.resume z).rest = z := by
    rw [rest, hahead]
    simp [resume, hline, hunread]
  have hfresh : (c.resume z).Fresh := fresh_of_ahead_eq_nil hahead (by simp [resume, hline])
  rwa [Fresh, hz] at hfresh

/-- The text that is left gets shorter from the front. -/
theorem rest_advance_suffix (c : Cursor) (n : Nat) : (c.advance n).rest <:+ c.rest := by
  refine ⟨c.ahead.take n, ?_⟩
  rw [rest, rest, ahead_advance, ← List.append_assoc, List.take_append_drop]
  rfl

/-! ## Staying on a line -/

/-- The cursor is on the line `L`, with `A` behind it, and has asked for nothing
    behind the line. -/
structure StaysOn (L A : List Char) (c : Cursor) : Prop where
  line : c.line = L
  unread : c.unread = A
  not_ended : c.ended = false

/-- Behind a line with a line feed the end of the text is not asked for. -/
theorem Keeps.staysOn (h : c.Keeps L A) (hL : L.getLast? = some '\n') : c.StaysOn L A := by
  obtain ⟨hline, hunread⟩ | ⟨-, -, hL'⟩ := id h
  · exact ⟨hline, hunread, h.not_ended hL⟩
  · exact absurd hL hL'

theorem StaysOn.advance (h : c.StaysOn L A) (n : Nat) : (c.advance n).StaysOn L A :=
  ⟨h.line, h.unread, h.not_ended⟩

/-- In front of the line feed, the line feed is ahead. -/
theorem Inside.newline_mem (h : c.Inside L A) (hL : L.getLast? = some '\n') : '\n' ∈ c.ahead := by
  refine List.mem_of_getLast? ?_
  rw [getLast?_ahead (h.2 hL), (h.1.staysOn hL).line, hL]

/-! ## More lines -/

/-- The cursor `c₂` is at the same place of the same line as `c₁`, with the text `z`
    behind the whole lines that are left for `c₁`. Neither has asked for more. -/
structure Longer (z : List Char) (c₁ c₂ : Cursor) : Prop where
  line : c₂.line = c₁.line
  column : c₂.column = c₁.column
  unread : c₂.unread = c₁.unread ++ z
  not_ended : c₁.ended = false ∧ c₂.ended = false
  whole : WholeLines c₁.rest

theorem longer_ofText (h : WholeLines text) (z : List Char) :
    Longer z (ofText text) (ofText (text ++ z)) :=
  ⟨rfl, rfl, rfl, ⟨rfl, rfl⟩, (rest_ofText text).symm ▸ h⟩

/-- By nothing, every cursor on a line of whole lines is longer than itself. -/
theorem In.longer_self (h : c.In text) (htext : WholeLines text) (hended : c.ended = false) :
    Longer [] c c := by
  refine ⟨rfl, rfl, (List.append_nil _).symm, ⟨hended, hended⟩, ?_⟩
  obtain ⟨before, hsplit, -⟩ := h.begins
  refine htext.of_suffix ⟨before ++ c.line.take c.column, ?_⟩
  rw [← hsplit, rest, ahead, List.append_assoc, ← List.append_assoc (c.line.take _),
    List.take_append_drop]

namespace Longer

theorem ahead (h : Longer z c₁ c₂) : c₂.ahead = c₁.ahead := by
  rw [Cursor.ahead, Cursor.ahead, h.line, h.column]

theorem advance (h : Longer z c₁ c₂) (n : Nat) : Longer z (c₁.advance n) (c₂.advance n) where
  line := h.line
  column := congrArg (· + n) h.column
  unread := h.unread
  not_ended := h.not_ended
  whole := h.whole.of_suffix (c₁.rest_advance_suffix n)

/-- The next line is the same for both, if the first one has one left. -/
theorem refill (h : Longer z c₁ c₂) (hrest : c₁.rest ≠ []) : Longer z c₁.refill c₂.refill := by
  have hwhole : WholeLines c₁.refill.rest := c₁.rest_refill.symm ▸ h.whole
  by_cases hahead : c₁.ahead = []
  · have hunread : c₁.rest = c₁.unread := by rw [rest, hahead, List.nil_append]
    rw [hunread] at hrest
    obtain ⟨hline, hafter⟩ := splitLine_append_of_wholeLines (hunread ▸ h.whole) hrest z
    obtain ⟨hline₁, hcolumn₁, hunread₁, hended₁⟩ := refill_of_line_end hahead h.not_ended.1
    obtain ⟨hline₂, hcolumn₂, hunread₂, hended₂⟩ :=
      refill_of_line_end (h.ahead.trans hahead) h.not_ended.2
    rw [h.unread] at hline₂ hunread₂ hended₂
    exact ⟨by rw [hline₁, hline₂, hline], by rw [hcolumn₁, hcolumn₂],
      by rw [hunread₁, hunread₂, hafter], ⟨by simp [hended₁, hrest], by simp [hended₂, hrest]⟩,
      hwhole⟩
  · rwa [refill_of_ahead hahead, refill_of_ahead (h.ahead ▸ hahead)]

/-- At the end of the first text the second cursor wants the first line of `z`. -/
theorem refill_at_end (h : Longer z c₁ c₂) (hrest : c₁.rest = []) :
    c₂.refill = (ofText z).refill := by
  obtain ⟨hahead, hunread⟩ := List.append_eq_nil_iff.1 hrest
  have hahead₂ : c₂.ahead = [] := h.ahead.trans hahead
  have hz : c₂.rest = z := by
    rw [rest, hahead₂, h.unread, hunread, List.nil_append, List.nil_append]
  have hfresh : c₂.Fresh := fresh_of_ahead_eq_nil hahead₂ h.not_ended.2
  rwa [Fresh, hz] at hfresh

/-- Both pass over the same characters up to one that stands on the line. -/
theorem skipThrough (h : Longer z c₁ c₂) (stop : Char → Bool) {x : Char} (hx : x ∈ c₁.ahead)
    (hstop : stop x) :
    (c₂.skipThrough stop).1 = (c₁.skipThrough stop).1 ∧
      Longer z (c₁.skipThrough stop).2 (c₂.skipThrough stop).2 := by
  rw [skipThrough_of_mem hx hstop, skipThrough_of_mem (h.ahead.symm ▸ hx) hstop, h.ahead]
  exact ⟨rfl, h.advance _⟩

end Longer

end Cursor

end Calculator.Text
