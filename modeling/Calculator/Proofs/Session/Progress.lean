import Calculator.Proofs.Grammar.Yield
import Calculator.Proofs.Reading.Places
import Calculator.Proofs.Session.Recovery
import Calculator.Proofs.Session.Rounds
import Calculator.Proofs.Session.Sentences

/-! # Every round takes text for good

    A token that was put back is still to be read, so the text that is left for
    the rounds to come is that token and what is unread behind it. A round that
    yields a value has taken at least the first token of its statement from it;
    a round that is rejected has taken that token, or a character that begins
    none, and leaves nothing in the slot (`Session.Makes.takes`). So there are no
    more rounds than characters (`Session.Plays.length_le`).
-/

namespace Calculator

open Scanner
open Text (isBlank)

/-! ## Text that is left -/

/-- The text that was not taken for good: a token that was put back, and what is
    unread behind it. -/
def Scanner.unconsumed (s : Scanner) : List Char :=
  s.slot.elim [] (·.lexeme.toList) ++ s.cursor.rest

/-- Only the end of the text has no characters. -/
def Token.Spelled (t : Token) : Prop := t.lexeme = "" → t.kind = .quit

/-- The token in the slot is spelled. -/
def Scanner.Spelled (s : Scanner) : Prop := ∀ t, s.slot = some t → t.Spelled

section unconsumed
variable {s : Scanner} {t : Token}

theorem Token.Spelled.toList_ne_nil (h : t.Spelled) (hquit : t.kind ≠ .quit) :
    t.lexeme.toList ≠ [] := fun hnil => hquit (h (String.toList_eq_nil_iff.1 hnil))

theorem Scanner.unconsumed_of_slot (h : s.slot = none) : s.unconsumed = s.cursor.rest := by
  rw [unconsumed, h]
  rfl

theorem Scanner.spelled_of_slot (h : s.slot = none) : s.Spelled := by
  intro t ht
  rw [h] at ht
  cases ht

/-- A token in the slot counts as one, and has at least one character. -/
theorem Scanner.Spelled.remaining_le (h : s.Spelled) :
    s.remaining ≤ s.unconsumed.length := by
  rw [Scanner.remaining, Scanner.unconsumed, List.length_append]
  cases hslot : s.slot with
  | none => simp
  | some t =>
    simp only [Option.elim_some]
    split
    · omega
    · next hend =>
      have hpos : 0 < t.lexeme.toList.length := by
        refine List.length_pos_iff.2 fun hnil => hend ?_
        have hlexeme := String.toList_eq_nil_iff.1 hnil
        simp [Token.isEnd, hlexeme, h t hslot hlexeme]
      omega

end unconsumed

/-- All that is left to read is the end of `text`. -/
def Invariant.leaving (text : List Char) : Invariant where
  Stop _ := False
  Ready s := s.unconsumed <:+ text ∧ s.Spelled
  Held t s := s.slot = none ∧ t.lexeme.toList ++ s.cursor.rest <:+ text ∧ t.Spelled
  Failed s := s.cursor.rest <:+ text
  get := by
    rintro s ⟨htext, hspelled⟩
    have hgets := s.gets
    generalize s.get = result at hgets ⊢
    have hblank (hslot : s.slot = none) : s.cursor.rest.dropWhile isBlank <:+ text := by
      rw [unconsumed_of_slot hslot] at htext
      exact (List.dropWhile_suffix _).trans htext
    cases hgets with
    | @held t slot =>
      rw [Scanner.unconsumed, slot] at htext
      exact .inl ⟨t, _, rfl, rfl, htext, hspelled t slot⟩
    | @token kind lexeme value t cursor slot lexed token_eq _ rest_eq =>
      refine .inl ⟨t, _, rfl, slot, ?_, ?_⟩
      · -- the lexeme and what is left make up the text behind the blanks
        rw [token_eq, rest_eq, String.toList_ofList,
          List.prefix_iff_eq_append.1 (Token.prefix_of_lex lexed)]
        exact hblank slot
      · intro hlexeme
        rw [token_eq, String.ofList_eq_empty_iff] at hlexeme
        rw [token_eq]
        rw [hlexeme] at lexed
        exact (Token.lex_eq_token_nil.1 lexed).2.1
    | @bad cause place cursor slot lexed _ rest_eq =>
      refine .inr ⟨_, _, rfl, ?_⟩
      rw [rest_eq]
      exact (List.drop_suffix 1 _).trans (hblank slot)
  held_slot h := h.1
  ready_hold := by
    rintro t s ⟨-, htext, hspelled⟩
    refine ⟨htext, fun u hu => ?_⟩
    cases hu
    exact hspelled
  ready_or_stop := by
    rintro t s ⟨hslot, htext, -⟩
    refine .inl ⟨?_, spelled_of_slot hslot⟩
    rw [unconsumed_of_slot hslot]
    exact (List.suffix_append _ _).trans htext
  isStop := isStop_never
  failed_of_ready h := (List.suffix_append _ _).trans h.1
  failed_of_held h := (List.suffix_append _ _).trans h.2.1

section readings
variable {text : List Char} {s s' : Scanner} {t : Token}

/-- Behind at least one more token, which was put back again, no more is left than
    before. -/
theorem Scanner.Peeked.unconsumed_suffix {ts : List Token} (hslot : s.slot = none)
    (h : s.Peeked ts s') : s'.unconsumed <:+ s.cursor.rest ∧ s'.Spelled := by
  obtain ⟨u, s₂, hgives, rfl⟩ := h
  obtain ⟨s₁, hts, hu⟩ := gives_append.1 hgives
  have hready : (Invariant.leaving s.cursor.rest).Ready s :=
    ⟨unconsumed_of_slot hslot ▸ List.suffix_refl _, spelled_of_slot hslot⟩
  have hready₁ := Invariant.ready_of_gives hready hts fun _ _ => id
  exact (Invariant.leaving s.cursor.rest).ready_hold
    (Invariant.held_of_get hready₁ (gives_singleton.1 hu))

end readings

namespace Session

variable {d : Dialect} {b : Bindings} {s s₁ : Session} {r : Round} {rounds : List Round}

/-! ## One round -/

theorem exists_taken {cs ds : List Char} (h : ds <:+ cs) (hlt : ds.length < cs.length) :
    ∃ taken, taken ≠ [] ∧ cs = taken ++ ds := by
  obtain ⟨taken, rfl⟩ := h
  refine ⟨taken, ?_, rfl⟩
  rintro rfl
  exact absurd hlt (Nat.lt_irrefl _)

theorem sentence_ne_nil {ts : List Token} {a : Action} (h : Sentence d b ts a) : ts ≠ [] := by
  cases h with
  | letClause | constClause | setClause => exact List.cons_ne_nil _ _
  | @print T => exact T.yield_ne_nil

theorem held_of_firstToken {t : Token} {scanner : Scanner} (hs : s.scanner.Spelled)
    (first : firstToken s.scanner = .ok t scanner) :
    (Invariant.leaving s.scanner.unconsumed).Held t scanner := by
  have hheld := (Invariant.leaving s.scanner.unconsumed).firstToken (fun _ => id)
    ⟨List.suffix_refl _, hs⟩
  rw [first] at hheld
  exact hheld

/-- A statement with a value takes its first token for good, and puts back one that
    stands behind it. -/
theorem takes_of_value {o : Outcome} (hs : s.scanner.Spelled)
    (turn : s.turn = .ok (some o) s₁) :
    s₁.scanner.Spelled ∧ s₁.scanner.unconsumed <:+ s.scanner.unconsumed ∧
      s₁.scanner.unconsumed.length < s.scanner.unconsumed.length := by
  cases turns_of_eq turn with
  | @carriedOut t scanner a scanner' change first quit after changed =>
    obtain ⟨-, hslot, hlast, -⟩ := firstToken_ok first
    obtain ⟨-, htext, hspelled⟩ := held_of_firstToken hs first
    -- The first token of the sentence is `t`, and the others were read behind it.
    obtain ⟨ts, hsentence, u, s₂, hgives, hheld⟩ := statementAfter_ok hslot hlast after
    obtain ⟨t', ts, rfl⟩ := List.exists_cons_of_ne_nil (sentence_ne_nil hsentence)
    obtain ⟨s₃, hget, hgives⟩ := gives_cons.1 hgives
    rw [get_hold_of_last hslot hlast] at hget
    cases hget
    have hpeeked : scanner.Peeked ts scanner' := ⟨u, s₂, hgives, hheld⟩
    obtain ⟨hsuffix, hspelled'⟩ := hpeeked.unconsumed_suffix hslot
    have hpos := List.length_pos_iff.2 (hspelled.toList_ne_nil quit)
    have hlength := htext.length_le
    rw [List.length_append] at hlength
    have hlength' := hsuffix.length_le
    refine ⟨hspelled', hsuffix.trans ((List.suffix_append _ _).trans htext), ?_⟩
    show scanner'.unconsumed.length < _
    omega

/-- A statement that is rejected was read in the text that was left. -/
theorem rest_suffix_of_rejected {rejection : Rejection} (hs : s.scanner.Spelled)
    (turn : s.turn = .error (.rejected rejection) s₁) :
    s₁.scanner.cursor.rest <:+ s.scanner.unconsumed := by
  have hafter {t : Token} {scanner : Scanner} (first : firstToken s.scanner = .ok t scanner) :
      (Invariant.leaving s.scanner.unconsumed).After
        (statementAfter s.dialect s.bindings t scanner) :=
    Invariant.after_statementAfter (fun _ => False.elim) (held_of_firstToken hs first)
  cases turns_of_eq turn with
  | unread first =>
    have hfailed := (Invariant.leaving s.scanner.unconsumed).firstToken (fun _ => id)
      ⟨List.suffix_refl _, hs⟩
    rw [first] at hfailed
    exact hfailed
  | stopped first quit after =>
    have hfailed := hafter first
    rw [after] at hfailed
    exact hfailed
  | refused first quit after changed =>
    have hready := hafter first
    rw [after] at hready
    exact (Invariant.leaving s.scanner.unconsumed).failed_of_ready hready

/-- Every round takes characters of the text that was left, and never gives them
    back. -/
theorem Makes.takes (hs : s.scanner.Spelled) (h : s.Makes r) :
    r.next.scanner.Spelled ∧
      ∃ taken, taken ≠ [] ∧ s.scanner.unconsumed = taken ++ r.next.scanner.unconsumed := by
  cases h with
  | value turn =>
    obtain ⟨hspelled, hsuffix, hlt⟩ := takes_of_value hs turn
    exact ⟨hspelled, exists_taken hsuffix hlt⟩
  | @rejected rejection s' turn =>
    obtain ⟨hslot, hresumption⟩ := recover_scanner s'
    have hlt := Nat.lt_of_lt_of_le (recover_remaining_lt turn) hs.remaining_le
    refine ⟨spelled_of_slot hslot, exists_taken ?_ ?_⟩
    · show s'.recover.2.scanner.unconsumed <:+ _
      rw [unconsumed_of_slot hslot, hresumption]
      exact s'.scanner.resumption_suffix.trans (rest_suffix_of_rejected hs turn)
    · show s'.recover.2.scanner.unconsumed.length < _
      rw [unconsumed_of_slot hslot]
      rw [Scanner.remaining, hslot] at hlt
      exact hlt

/-! ## All rounds -/

theorem Plays.spelled (h : s.Plays rounds s₁) (hs : s.scanner.Spelled) : s₁.scanner.Spelled := by
  induction rounds generalizing s with
  | nil => exact h ▸ hs
  | cons r rounds ih => exact ih h.2 (h.1.takes hs).1

/-- There are no more rounds than characters that were taken. -/
theorem Plays.length_le (h : s.Plays rounds s₁) (hs : s.scanner.Spelled) :
    rounds.length + s₁.scanner.unconsumed.length ≤ s.scanner.unconsumed.length := by
  induction rounds generalizing s with
  | nil =>
    rw [h]
    exact Nat.le_of_eq (Nat.zero_add _)
  | cons r rounds ih =>
    obtain ⟨hspelled, taken, hne, htaken⟩ := h.1.takes hs
    have hpos := List.length_pos_iff.2 hne
    have hle := ih h.2 hspelled
    rw [htaken, List.length_append, List.length_cons]
    omega

theorem spelled_ofText (d : Dialect) (b : Bindings) (text : List Char) :
    (ofText d b text).scanner.Spelled :=
  spelled_of_slot rfl

theorem unconsumed_ofText (d : Dialect) (b : Bindings) (text : List Char) :
    (ofText d b text).scanner.unconsumed = text :=
  Text.Cursor.rest_ofText text

end Session

end Calculator
