import Calculator.Proofs.Session.Recovery
import Calculator.Proofs.Token.Pieces
import Mathlib.Logic.Function.Iterate

/-! # The words of a text

    The words of a text are those that a scanner finds in it, from one token to
    the next: `constant` is one word, and `1e5const` is a number with the word
    `const` behind it. A text that `Lacks` a word lacks it behind each of its
    tokens. It also lacks it behind the next terminator, since no token
    reaches over one, so giving a statement up does not uncover new words.
-/

namespace Calculator

open Text (isBlank)

namespace Token

variable {keywords : Keywords} {word : String} {cs : List Char}

/-- The text behind its first token, or behind the character that begins none. -/
def behindToken (keywords : Keywords) (cs : List Char) : List Char :=
  match lex keywords (cs.dropWhile isBlank) with
  | .token _ lexeme _ => (cs.dropWhile isBlank).drop lexeme.length
  | .bad _ => (cs.dropWhile isBlank).drop 1

/-- However many tokens are passed over, the next one is not the word. -/
def Lacks (keywords : Keywords) (word : String) (cs : List Char) : Prop :=
  ∀ (n : Nat) (kind : Kind) (lexeme : List Char) (value : Float),
    lex keywords (((behindToken keywords)^[n] cs).dropWhile isBlank) =
      .token kind lexeme value → String.ofList lexeme ≠ word

theorem Lacks.head (h : Lacks keywords word cs) {kind : Kind} {lexeme : List Char}
    {value : Float} (hlex : lex keywords (cs.dropWhile isBlank) = .token kind lexeme value) :
    String.ofList lexeme ≠ word :=
  h 0 kind lexeme value hlex

/-- What is behind some tokens of the text lacks the word too. -/
theorem Lacks.iterate (h : Lacks keywords word cs) (n : Nat) :
    Lacks keywords word ((behindToken keywords)^[n] cs) := by
  intro m kind lexeme value hlex
  rw [← Function.iterate_add_apply] at hlex
  exact h (m + n) kind lexeme value hlex

theorem Lacks.behindToken (h : Lacks keywords word cs) :
    Lacks keywords word (behindToken keywords cs) :=
  h.iterate 1

/-- Where there is more than blanks, something is passed over. -/
theorem length_behindToken_lt (keywords : Keywords) (h : cs.dropWhile isBlank ≠ []) :
    (behindToken keywords cs).length < cs.length := by
  have hle := (List.dropWhile_suffix (l := cs) isBlank).length_le
  have hpos := List.length_pos_iff.2 h
  unfold behindToken
  split
  · next lexeme value hlex =>
    have hlexeme : lexeme ≠ [] := by
      rintro rfl
      exact h (lex_eq_token_nil.1 hlex).1
    have hpos' := List.length_pos_iff.2 hlexeme
    rw [List.length_drop]
    omega
  · rw [List.length_drop]
    omega

/-- The text behind the next terminator is found behind some of the tokens. -/
theorem exists_iterate_eq_behindTerminator (hk : Avoids keywords .terminator)
    (cs : List Char) : ∃ n, (Token.behindToken keywords)^[n] cs = behindTerminator cs := by
  -- Tokens are passed over until one of them is the terminator.
  induction hlength : cs.length using Nat.strongRecOn generalizing cs with
  | ind length ih =>
    subst hlength
    by_cases hnil : cs.dropWhile isBlank = []
    · -- only blanks are left, and then nothing
      refine ⟨1, ?_⟩
      rw [← behindTerminator_dropWhile_isBlank, Function.iterate_one, Token.behindToken, hnil]
      rfl
    · obtain ⟨n, hn⟩ := ih _ (length_behindToken_lt keywords hnil) _ rfl
      cases hlex : lex keywords (cs.dropWhile isBlank) with
      | token kind lexeme value =>
        have hbehind := behindTerminator_of_lex_token hk hlex
        have hrest : Token.behindToken keywords cs =
            (cs.dropWhile isBlank).drop lexeme.length := by
          rw [Token.behindToken, hlex]
        by_cases hkind : kind = .terminator
        · exact ⟨1, by rw [Function.iterate_one, hrest, hbehind, if_pos hkind]⟩
        · rw [if_neg hkind, ← hrest] at hbehind
          exact ⟨n + 1, by rw [Function.iterate_succ_apply, hn, hbehind]⟩
      | bad cause =>
        have hbehind := behindTerminator_of_lex_bad hlex
        have hrest : Token.behindToken keywords cs = (cs.dropWhile isBlank).drop 1 := by
          rw [Token.behindToken, hlex]
        rw [← hrest] at hbehind
        exact ⟨n + 1, by rw [Function.iterate_succ_apply, hn, hbehind]⟩

theorem Lacks.behindTerminator (hk : Avoids keywords .terminator)
    (h : Lacks keywords word cs) : Lacks keywords word (behindTerminator cs) := by
  obtain ⟨n, hn⟩ := exists_iterate_eq_behindTerminator hk cs
  rw [← hn]
  exact h.iterate n

end Token

/-! ## What a scanner gives -/

namespace Scanner

variable {s : Scanner}

theorem get_rest (hslot : s.slot = none) :
    s.get.2.slot = none ∧ s.get.2.keywords = s.keywords ∧
      s.get.2.cursor.rest = Token.behindToken s.keywords s.cursor.rest := by
  have hgets := s.gets
  generalize s.get = result at hgets ⊢
  cases hgets with
  | held slot => rw [hslot] at slot; cases slot
  | token slot lexed _ _ rest_eq =>
    refine ⟨hslot, rfl, ?_⟩
    rw [Token.behindToken, lexed]
    exact rest_eq
  | bad slot lexed _ rest_eq =>
    refine ⟨hslot, rfl, ?_⟩
    rw [Token.behindToken, lexed]
    exact rest_eq

theorem afterGets_rest (hslot : s.slot = none) (n : Nat) :
    (s.afterGets n).slot = none ∧ (s.afterGets n).keywords = s.keywords ∧
      (s.afterGets n).cursor.rest = (Token.behindToken s.keywords)^[n] s.cursor.rest := by
  induction n generalizing s with
  | zero => exact ⟨hslot, rfl, rfl⟩
  | succ n ih =>
    obtain ⟨hslot', hkeywords, hrest⟩ := get_rest hslot
    have hafter := ih hslot'
    rw [hkeywords, hrest] at hafter
    exact hafter

/-- A word that no call gives is not in the text. -/
theorem lacks_of_given {word : String} (hslot : s.slot = none)
    (h : ∀ n t, s.given n = .ok t → t.lexeme ≠ word) :
    Token.Lacks s.keywords word s.cursor.rest := by
  intro n kind lexeme value hlex
  obtain ⟨hslot', hkeywords, hrest⟩ := afterGets_rest hslot n
  rw [← hrest, ← hkeywords] at hlex
  have hgiven := h n
  have hgets := (s.afterGets n).gets
  unfold given at hgiven
  generalize (s.afterGets n).get = result at hgets hgiven
  cases hgets with
  | held slot => rw [hslot'] at slot; cases slot
  | bad slot lexed => rw [hlex] at lexed; cases lexed
  | token slot lexed token_eq =>
    rw [hlex] at lexed
    cases lexed
    have hne := hgiven _ rfl
    rwa [token_eq] at hne

end Scanner

end Calculator
