import Calculator.Text.Line

/-! # A cursor that reads line by line

    The cursor holds the line that it stands on and the text that has not been
    read. The next line is taken only when a character is wanted and the
    current line has none left, so a program that reads from a terminal never
    waits for a line that it does not need. Between two lines the same place
    in the text therefore has two forms: the end of the old line, and, once
    something was wanted, the start of the new one.

    `Cursor.rest` is the view: the text from the place of the cursor on.
-/

namespace Calculator.Text

/-- A place in a text that is read line by line. -/
structure Cursor where
  /-- The text after the current line. -/
  unread : List Char
  /-- The line that was read last, with its line feed. -/
  line : List Char := []
  /-- How far into the line the cursor stands. -/
  column : Nat := 0
  /-- Whether the end of the text has been reported. -/
  ended : Bool := false
  /-- A line before others ends with a line feed. -/
  line_ends : unread ≠ [] → line ≠ [] → line.getLast? = some '\n' := by simp
  /-- Nothing is left once the end has been reported. -/
  ended_empty : ended = true → line = [] ∧ unread = [] := by simp
deriving Repr

namespace Cursor

/-- The cursor before a text of which nothing has been read. -/
def ofText (text : List Char) : Cursor := { unread := text }

/-- What is left of the current line. -/
def ahead (c : Cursor) : List Char := c.line.drop c.column

/-- What is left of the text. -/
def rest (c : Cursor) : List Char := c.ahead ++ c.unread

/-- Reads the next line if the current one has no character left. At the end of
    the text the line that is read is empty, and that is remembered. -/
def refill (c : Cursor) : Cursor :=
  if c.ended || c.column < c.line.length then c
  else
    { unread := (splitLine c.unread).2
      line := (splitLine c.unread).1
      column := 0
      ended := c.unread.isEmpty
      line_ends := fun h _ => splitLine_getLast? h
      ended_empty := fun h => by simp [List.isEmpty_iff.1 h, splitLine] }

/-- Moves `n` characters on within the line, or beyond its end. -/
def advance (n : Nat) (c : Cursor) : Cursor := { c with column := c.column + n }

/-- The character at the cursor, after the line that holds it has been read;
    none at the end. -/
def peek (c : Cursor) : Option Char × Cursor := (c.refill.ahead.head?, c.refill)

/-- Takes the lexeme that a scanner finds at the cursor. -/
def take (scan? : List Char → Option (List Char)) (c : Cursor) : Option (List Char) × Cursor :=
  match scan? c.refill.ahead with
  | some lexeme => (some lexeme, c.refill.advance lexeme.length)
  | none => (none, c.refill)

/-- Takes `n` characters, reading lines as needed. -/
def pass : Nat → Cursor → Cursor
  | 0, c => c
  | n + 1, c => pass n (c.refill.advance 1)

/-- Moves just behind the next character that satisfies `stop`, or to the end
    if there is none. Also counts the characters before it. -/
def skipThrough (stop : Char → Bool) (c : Cursor) : Nat × Cursor :=
  let skipped := (c.rest.takeWhile (!stop ·)).length
  if skipped < c.rest.length then (skipped, c.pass (skipped + 1))
  else (skipped, (c.pass skipped).refill)

/-- Supplies more text to a cursor that has no line: one that has read nothing
    yet or has reported the end. -/
def resume (text : List Char) (c : Cursor) : Cursor :=
  if h : c.line = [] then
    { c with
      unread := c.unread ++ text
      ended := false
      line_ends := fun _ hline => absurd h hline
      ended_empty := by simp }
  else c

/-! ## The view -/

@[simp] theorem rest_ofText (text : List Char) : (ofText text).rest = text := by
  simp [ofText, rest, ahead]

/-- Reading a line does not move the cursor. -/
@[simp] theorem rest_refill (c : Cursor) : c.refill.rest = c.rest := by
  unfold refill
  split
  · rfl
  · next h =>
    simp only [Bool.or_eq_true, decide_eq_true_eq, not_or, Nat.not_lt] at h
    simp [rest, ahead, splitLine_append, List.drop_eq_nil_of_le h.2]

theorem ahead_advance (c : Cursor) (n : Nat) : (c.advance n).ahead = c.ahead.drop n := by
  simp [ahead, advance, List.drop_drop]

/-- Within the line, the characters passed over are taken from the rest. -/
theorem rest_advance {c : Cursor} {n : Nat} (h : n ≤ c.ahead.length) :
    (c.advance n).rest = c.rest.drop n := by
  unfold rest ahead advance at *
  rw [List.drop_append_of_le_length h, List.drop_drop]

theorem length_ahead_le (c : Cursor) : c.ahead.length ≤ c.rest.length := by
  simp [rest]

/-- There is a character ahead on the line unless the text is at its end. -/
theorem ahead_refill_eq_nil {c : Cursor} : c.refill.ahead = [] ↔ c.rest = [] := by
  unfold refill
  split
  · next h =>
    simp only [Bool.or_eq_true, decide_eq_true_eq] at h
    cases h with
    | inl h =>
      have he := c.ended_empty h
      simp [rest, ahead, he.1, he.2]
    | inr h =>
      have : c.ahead ≠ [] := by simp [ahead]; omega
      simp [rest, this]
  · next h =>
    simp only [Bool.or_eq_true, decide_eq_true_eq, not_or, Nat.not_lt] at h
    simp [rest, ahead, splitLine_fst_eq_nil, List.drop_eq_nil_of_le h.2]

end Cursor

end Calculator.Text
