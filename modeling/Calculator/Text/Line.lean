/-! # Lines

    A line ends with its line feed; only the last one may lack it.
    `splitLine` takes the first line off a text.
-/

namespace Calculator.Text

/-- The first line of a text, with its line feed, and the text after it. -/
def splitLine : List Char → List Char × List Char
  | [] => ([], [])
  | c :: rest =>
    if c = '\n' then ([c], rest)
    else
      let (line, after) := splitLine rest
      (c :: line, after)

/-- Every line break as a line feed: a carriage return, with the line feed that
    may follow it, is one. -/
def normalizeBreaks : List Char → List Char
  | '\r' :: '\n' :: rest => '\n' :: normalizeBreaks rest
  | '\r' :: rest => '\n' :: normalizeBreaks rest
  | c :: rest => c :: normalizeBreaks rest
  | [] => []

/-! ## Properties of `splitLine` -/

/-- Nothing is lost. -/
theorem splitLine_append (cs : List Char) : (splitLine cs).1 ++ (splitLine cs).2 = cs := by
  induction cs with
  | nil => rfl
  | cons c rest ih =>
    unfold splitLine
    split
    · rfl
    · simpa using ih

/-- The first line of a text that is not empty is not empty. -/
theorem splitLine_fst_eq_nil {cs : List Char} : (splitLine cs).1 = [] ↔ cs = [] := by
  cases cs with
  | nil => simp [splitLine]
  | cons c rest => unfold splitLine; split <;> simp

/-- A line that is not the last one ends with a line feed. -/
theorem splitLine_getLast? {cs : List Char} (h : (splitLine cs).2 ≠ []) :
    (splitLine cs).1.getLast? = some '\n' := by
  induction cs with
  | nil => exact absurd rfl h
  | cons c rest ih =>
    unfold splitLine at h ⊢
    split
    · next hc => simp [hc]
    · next hc =>
      simp only [hc, if_false] at h
      have hlast := ih h
      cases hline : (splitLine rest).1 with
      | nil => rw [hline] at hlast; simp at hlast
      | cons d ds =>
        rw [hline] at hlast
        simpa [hline, List.getLast?_cons_cons] using hlast

end Calculator.Text
