import Calculator.Dialect
import Calculator.Proofs.Token.Lexing

/-! # What dialects have in common

    The readers depend on little of a dialect: that a closing bracket can be
    asked for when it is missing, and that no token that ends a statement means
    anything else. Every dialect whose brackets are among those of the full one
    has both properties (`GroupsWithin.closable`,
    `GroupsWithin.closing?_of_isStop`), the two built-in dialects among them.
-/

namespace Calculator

/-- The token ends a statement: a terminator, a word for the end of the session,
    or the end of the text. -/
def Token.IsStop (t : Token) : Prop := t.kind = .terminator ∨ t.kind = .quit

theorem Token.kind_of_isEnd {t : Token} (h : t.isEnd = true) : t.kind = .quit := by
  unfold Token.isEnd at h
  simp only [Bool.and_eq_true, decide_eq_true_eq] at h
  exact h.1

/-! ## Brackets -/

/-- Every token that closes a group in the dialect has a bracket that can be
    asked for. -/
def Dialect.Closable (d : Dialect) : Prop :=
  ∀ t k, d.closing? t = some k → k.closingBracket?.isSome

/-- Every bracket that groups in `d` groups in `e`, with the same closing one. -/
def Dialect.GroupsWithin (d e : Dialect) : Prop :=
  ∀ opening closing, d.groupings.lookup opening = some closing →
    e.groupings.lookup opening = some closing

namespace Dialect

variable {d : Dialect}

theorem lookup_of_closing? {t : Token} {k : Token.Kind} (h : d.closing? t = some k) :
    d.groupings.lookup t.kind = some k := by
  unfold closing? at h
  split at h
  · cases h
  · exact h

/-- The pairs of brackets of the full dialect. -/
theorem lookup_full {opening closing : Token.Kind}
    (h : full.groupings.lookup opening = some closing) :
    opening = .openParen ∧ closing = .closeParen ∨
      opening = .openBrace ∧ closing = .closeBrace ∨
      opening = .openBracket ∧ closing = .closeBracket := by
  cases opening <;> cases h <;> decide

theorem classic_groupsWithin_full : classic.GroupsWithin full := by
  intro opening closing h
  cases opening <;> cases h
  rfl

namespace GroupsWithin

/-- Each of these brackets can be asked for when it is missing. -/
theorem closable (h : d.GroupsWithin full) : d.Closable := by
  intro t k hk
  obtain ⟨-, rfl⟩ | ⟨-, rfl⟩ | ⟨-, rfl⟩ := lookup_full (h _ _ (lookup_of_closing? hk)) <;> rfl

/-- A token that is none of the three opening brackets opens no group. -/
theorem closing?_eq_none (h : d.GroupsWithin full) {t : Token}
    (ht : full.groupings.lookup t.kind = none) : d.closing? t = none := by
  cases hk : d.closing? t with
  | none => rfl
  | some k => rw [h _ _ (lookup_of_closing? hk)] at ht; cases ht

/-- A token that ends a statement opens no group. -/
theorem closing?_of_isStop (h : d.GroupsWithin full) {t : Token} (ht : t.IsStop) :
    d.closing? t = none := by
  rcases ht with hk | hk <;> exact h.closing?_eq_none (by rw [hk]; rfl)

end GroupsWithin

/-- A token that opens no group of the full dialect. -/
theorem closing?_full_eq_none {t : Token} {k : Token.Kind} (h : t.kind = k)
    (hk : full.groupings.lookup k = none) : full.closing? t = none :=
  GroupsWithin.closing?_eq_none (fun _ _ h => h) (h ▸ hk)

/-! ## The built-in dialects -/

/-- The two dialects that can be asked for. -/
def IsBuiltIn (d : Dialect) : Prop := d = .full ∨ d = .classic

theorem IsBuiltIn.groupsWithin (h : d.IsBuiltIn) : d.GroupsWithin full := by
  obtain rfl | rfl := h
  · exact fun _ _ h => h
  · exact classic_groupsWithin_full

/-- What no keyword means no word means, except to be a name. -/
theorem avoids_of_keywords {keywords : Keywords} {kind : Token.Kind} (hname : kind ≠ .name)
    (h : ∀ p ∈ keywords, p.2 ≠ kind) : Token.Avoids keywords kind := by
  intro word
  unfold Token.wordKind
  cases hword : keywords.lookup word with
  | none => exact hname.symm
  | some k =>
    -- the word is in the table
    obtain ⟨before, after, hkeywords, -⟩ := List.lookup_eq_some_iff.1 hword
    exact h (word, k) (by simp [hkeywords])

/-- No word of a built-in dialect is a terminator. -/
theorem IsBuiltIn.avoids_terminator (h : d.IsBuiltIn) :
    Token.Avoids d.keywords .terminator := by
  apply avoids_of_keywords (by decide)
  obtain rfl | rfl := h <;> decide

end Dialect

end Calculator
