import Calculator.Diagnostic.Basic

/-! # Where the caret of a message stands

    The excerpt and the caret line are computed apart: a window of ten characters
    to each side of the place, cut at the ends of the line, dots for what is left
    out in front of it and behind it, and a number of blanks. They fit together:
    the caret stands below the character at the place (`excerpt_caret`), or as far
    behind the excerpt as the place is behind the line (`length_excerpt`).
-/

namespace Calculator.Diagnostic

variable {code : List Char} {column : Nat}

/-! ## The line without its line feeds -/

/-- Only the line feeds at the end are taken off. -/
theorem visible_append_newlines (h : '\n' ∉ code) (breaks : Nat) :
    visible (code ++ List.replicate breaks '\n') = code := by
  have hkept : code.reverse.dropWhile (· = '\n') = code.reverse := by
    cases hcode : code.reverse with
    | nil => rfl
    | cons c before =>
      have hc : c ≠ '\n' := by
        rintro rfl
        exact h (List.mem_reverse.1 (hcode ▸ List.mem_cons_self))
      simp [hc]
  have hbreaks : ∀ c ∈ List.replicate breaks '\n', decide (c = '\n') = true := by simp
  rw [visible, List.reverse_append, List.reverse_replicate, List.dropWhile_append_of_pos hbreaks,
    hkept, List.reverse_reverse]

/-- Nothing is left of a line that has line feeds alone. -/
theorem visible_eq_nil {line : List Char} (h : ∀ c ∈ line, c = '\n') : visible line = [] := by
  have hline : line = [] ++ List.replicate line.length '\n' := List.eq_replicate_iff.2 ⟨rfl, h⟩
  rw [hline]
  exact visible_append_newlines List.not_mem_nil _

/-! ## The excerpt and the caret -/

/-- The dots in front of the excerpt. -/
def dotsBefore (column : Nat) : List Char := if margin < column then ellipsis else []

/-- The dots behind the excerpt. -/
def dotsAfter (code : List Char) (column : Nat) : List Char :=
  if column + margin < code.length then ellipsis else []

/-- The characters of the line that are shown. -/
def window (code : List Char) (column : Nat) : List Char :=
  code.extract (column - margin) (min code.length (column + margin))

/-- The number of blanks in front of the caret. -/
def caretColumn (column : Nat) : Nat := column - (column - margin) + (dotsBefore column).length

theorem excerpt_eq (code : List Char) (column : Nat) :
    excerpt code column = dotsBefore column ++ window code column ++ dotsAfter code column := by
  have hfirst : 0 < column - margin ↔ margin < column := Nat.sub_pos_iff_lt
  have hpast : min code.length (column + margin) < code.length ↔ column + margin < code.length := by
    omega
  simp only [excerpt, dotsBefore, dotsAfter, window, List.extract_eq_take_drop, hfirst, hpast]

theorem caret_eq (column : Nat) :
    caret column = List.replicate (caretColumn column) ' ' ++ ['^'] := by
  have hfirst : 0 < column - margin ↔ margin < column := Nat.sub_pos_iff_lt
  have hdots : (if margin < column then ellipsis.length else 0) = (dotsBefore column).length := by
    unfold dotsBefore
    split <;> rfl
  simp only [caret, caretColumn, hfirst, hdots]

/-- Below a place on the line the caret stands under the character there. -/
theorem excerpt_caret (h : column < code.length) :
    (excerpt code column)[caretColumn column]? = code[column]? := by
  have hmargin : 0 < margin := by decide
  have hplace : column - margin + (column - (column - margin)) = column := by omega
  have hlength : column - (column - margin) < (window code column).length := by
    simp only [window, List.extract_eq_take_drop, List.length_take, List.length_drop]
    omega
  calc (excerpt code column)[caretColumn column]?
      = (window code column)[column - (column - margin)]? := by
        rw [excerpt_eq, List.append_assoc, caretColumn, Nat.add_comm,
          List.getElem?_append_right (Nat.le_add_right _ _), Nat.add_sub_cancel_left,
          List.getElem?_append_left hlength]
    _ = code[column]? := by
      rw [window, List.extract_eq_take_drop, List.getElem?_take_of_lt (by omega),
        List.getElem?_drop, hplace]

/-- Up to the margin behind the line the caret stands that far behind the excerpt. -/
theorem length_excerpt (hlow : code.length ≤ column) (hhigh : column ≤ code.length + margin) :
    caretColumn column = (excerpt code column).length + (column - code.length) := by
  have hafter : dotsAfter code column = [] := if_neg (by omega)
  have hwindow : (window code column).length = code.length - (column - margin) := by
    simp only [window, List.extract_eq_take_drop, List.length_take, List.length_drop]
    omega
  rw [excerpt_eq, hafter, List.append_nil, List.length_append, hwindow, caretColumn]
  omega

/-- No line is broken in an excerpt. -/
theorem newline_not_mem_excerpt (h : '\n' ∉ code) : '\n' ∉ excerpt code column := by
  have hdots : '\n' ∉ ellipsis := by decide
  rw [excerpt_eq]
  simp only [List.mem_append, not_or]
  refine ⟨⟨?_, fun hmem => h ?_⟩, ?_⟩
  · unfold dotsBefore
    split
    · exact hdots
    · exact List.not_mem_nil
  · rw [window, List.extract_eq_take_drop] at hmem
    exact List.mem_of_mem_drop (List.mem_of_mem_take hmem)
  · unfold dotsAfter
    split
    · exact hdots
    · exact List.not_mem_nil

/-! ## The message -/

/-- A message whose place is not known is a heading alone. Otherwise two lines
    follow: the characters from ten in front of the place to ten behind it, with
    dots on the side where something is left out, and blanks with a caret. The caret
    stands below the character at the place. If the place is behind the line, on the
    line feed that was taken off or up to ten columns on, the caret is as far behind
    the end of the excerpt. -/
theorem caret_stands_below_place (d : Diagnostic) :
    (d.column < 0 ∨ (∀ c ∈ d.line, c = '\n') → d.text = d.heading) ∧
    ∀ (code : List Char) (breaks column : Nat), d.line = code ++ List.replicate breaks '\n' →
      code ≠ [] → '\n' ∉ code → d.column = column →
      ∃ (before after : List Char) (k : Nat),
        let shown := before ++ code.extract (column - 10) (min code.length (column + 10)) ++ after
        d.text = "\n".intercalate
          [d.heading, String.ofList shown, String.ofList (List.replicate k ' ' ++ ['^'])] ∧
        before = (if 10 < column then ['.', '.', '.'] else []) ∧
        after = (if column + 10 < code.length then ['.', '.', '.'] else []) ∧
        '\n' ∉ shown ∧
        (column < code.length → shown[k]? = code[column]?) ∧
        (code.length ≤ column → column ≤ code.length + 10 →
          k = shown.length + (column - code.length)) := by
  refine ⟨fun h => ?_, ?_⟩
  · have hunknown : (decide (visible d.line = []) || decide (d.column < 0)) = true := by
      obtain h | h := h
      · simp [h]
      · simp [visible_eq_nil h]
    exact if_pos hunknown
  · intro code breaks column hline hne hcode hcolumn
    refine ⟨dotsBefore column, dotsAfter code column, caretColumn column, ?_, rfl, rfl, ?_, ?_, ?_⟩
    · have hknown : ¬ (decide (code = []) || decide (d.column < 0)) = true := by
        simp [hne, hcolumn]
      rw [text, hline, visible_append_newlines hcode, if_neg hknown, hcolumn, Int.toNat_natCast,
        excerpt_eq, caret_eq]
      rfl
    · exact excerpt_eq code column ▸ newline_not_mem_excerpt hcode
    · exact excerpt_eq code column ▸ excerpt_caret
    · exact excerpt_eq code column ▸ length_excerpt

/-- A long line is cut on both sides of the place. -/
example :
    (⟨.token, "Unexpected character: '@'", "1 + 2 + 3 + 4 + 5 + @ + 6 + 7 + 8 + 9\n".toList, 20⟩ :
      Diagnostic).text =
    "[Tokenizer error] Unexpected character: '@'\n...+ 4 + 5 + @ + 6 + 7 ...\n             ^" := by
  decide +kernel

end Calculator.Diagnostic
