import Calculator.Proofs.Session.Walk

/-! # Scanners with more text

    Two scanners are `Apart` by a text `z` if they read the same, except that
    the second one finds `z` where the first one is at its end. The text `z` is
    empty or begins with a terminator, so no token reaches into it.

    Reading keeps the two in lockstep (`Lockstep.apart`). If `z` is empty they
    stay apart by nothing. Otherwise they part when the first scanner hands out
    the end of its text and the second one the terminator: from then on the
    second one has `Passed` it, and no reader reads on before the statement is
    over.
-/

namespace Calculator

open Reading
open Text (Cursor isBlank)

/-! ## Cursors -/

namespace Text.Cursor

/-- What is left for `c₂` is what is left for `c₁`, and `z` behind it. -/
structure Apart (z : List Char) (c₁ c₂ : Cursor) : Prop where
  rest : c₂.rest = c₁.rest ++ z
  tidy : c₂.Tidy

/-- Nothing is left for `c₁`, and `c₂` is behind the terminator that `z` begins
    with. Behind a line feed it stands before a new line. -/
structure Passed (z : List Char) (c₁ c₂ : Cursor) : Prop where
  nonempty : z ≠ []
  rest_eq_nil : c₁.rest = []
  rest_eq_tail : c₂.rest = z.tail
  fresh : z.head? = some '\n' → c₂.Fresh

variable {z : List Char} {c₁ c₂ : Cursor}

theorem Tidy.skipBlanks {c : Cursor} (h : c.Tidy) : (Token.skipBlanks c).Tidy :=
  (h.refill.advance _).refill

theorem Apart.dropWhile_isBlank (h : Apart z c₁ c₂) (hz : Detached z) :
    c₂.rest.dropWhile isBlank = c₁.rest.dropWhile isBlank ++ z := by
  rw [h.rest, dropWhile_append_detached isBlank_of_isTerminator hz]

/-- Both pass over the same characters. -/
theorem Apart.of_drop (h : Apart z c₁ c₂) (hz : Detached z) {c₁' c₂' : Cursor} {n : Nat}
    (hn : n ≤ (c₁.rest.dropWhile isBlank).length) (htidy : c₂'.Tidy)
    (h₁ : c₁'.rest = (c₁.rest.dropWhile isBlank).drop n)
    (h₂ : c₂'.rest = (c₂.rest.dropWhile isBlank).drop n) : Apart z c₁' c₂' := by
  refine ⟨?_, htidy⟩
  rw [h₂, h₁, h.dropWhile_isBlank hz, List.drop_append_of_le_length hn]

/-- Skipping through a terminator leaves the cursors apart, or only the second
    one has found it. -/
theorem Apart.skipThrough (h : Apart z c₁ c₂) (hz : Detached z) :
    Apart z (c₁.skipThrough isTerminator).2 (c₂.skipThrough isTerminator).2 ∨
      Passed z (c₁.skipThrough isTerminator).2 (c₂.skipThrough isTerminator).2 := by
  have hrest := dropWhile_append_detached (p := (!isTerminator ·)) (fun c hc => by simp [hc]) hz
    c₁.rest
  rw [← h.rest] at hrest
  by_cases hnone : c₁.rest.dropWhile (!isTerminator ·) = [] ∧ z ≠ []
  · -- The first cursor finds no terminator, and the second one finds that of `z`.
    obtain ⟨hnone, hne⟩ := hnone
    rw [hnone, List.nil_append] at hrest
    refine .inr ⟨hne, ?_, ?_, fun hhead => ?_⟩
    · rw [rest_skipThrough, hnone]
      rfl
    · rw [rest_skipThrough, hrest, List.drop_one]
    · exact h.tidy.fresh_skipThrough (hrest ▸ hhead)
  · -- Both find the same terminator, or neither finds one.
    refine .inl ⟨?_, h.tidy.skipThrough _⟩
    rw [rest_skipThrough, rest_skipThrough, hrest]
    by_cases hne : z = []
    · rw [hne, List.append_nil, List.append_nil]
    · have hsome : c₁.rest.dropWhile (!isTerminator ·) ≠ [] := fun hnil => hnone ⟨hnil, hne⟩
      exact List.drop_append_of_le_length (List.length_pos_iff.2 hsome)

end Text.Cursor

/-! ## Scanners -/

namespace Scanner

/-- Two tokens that were read, or none. The end of the text is among them only if
    nothing else is to be found there. -/
def AlikeIn (z : List Char) : Option Token → Option Token → Prop
  | none, none => True
  | some t, some u => t.Alike u ∧ (z = [] ∨ t.isEnd = false)
  | _, _ => False

/-- The scanners read the same up to `z`. -/
structure Apart (z : List Char) (s₁ s₂ : Scanner) : Prop where
  keywords : s₂.keywords = s₁.keywords
  cursor : s₁.cursor.Apart z s₂.cursor
  slot : AlikeIn z s₁.slot s₂.slot
  last : AlikeIn z s₁.last s₂.last

/-- The first scanner came to its end where the second one found the
    terminator. -/
structure Parted (z : List Char) (t u : Token) (s₁ s₂ : Scanner) : Prop where
  keywords : s₂.keywords = s₁.keywords
  cursor : s₁.cursor.Passed z s₂.cursor
  isEnd : t.isEnd = true
  terminator : u.kind = .terminator

variable {z : List Char} {s₁ s₂ : Scanner}

theorem Apart.latest (h : Apart z s₁ s₂) : AlikeIn z s₁.latest s₂.latest := by
  have hslot := h.slot
  unfold Scanner.latest
  cases h₁ : s₁.slot <;> cases h₂ : s₂.slot <;> rw [h₁, h₂] at hslot
  · exact h.last
  · exact hslot.elim
  · exact hslot.elim
  · exact hslot

/-- The two tokens that were just handed out. -/
structure HeldApart (z : List Char) (t u : Token) (s₁ s₂ : Scanner) : Prop where
  slot_left : s₁.slot = none
  slot_right : s₂.slot = none
  last_left : s₁.last = some t
  last_right : s₂.last = some u
  apart_or_parted : Apart z s₁ s₂ ∨ Parted z t u s₁ s₂

/-- The same token is scanned on both sides, or the same character rejected, if
    there is anything in front of `z`. -/
theorem Apart.get_of_lex (h : Apart z s₁ s₂) (hz : Detached z) (hslot : s₁.slot = none)
    (hslot' : s₂.slot = none) (hne : s₁.cursor.rest.dropWhile isBlank ≠ [] ∨ z = []) :
    (∃ t₁ t₂ s₁' s₂', s₁.get = (.ok t₁, s₁') ∧ s₂.get = (.ok t₂, s₂') ∧
      HeldApart z t₁ t₂ s₁' s₂') ∨
      ∃ r₁ r₂ s₁' s₂', s₁.get = (.error r₁, s₁') ∧ s₂.get = (.error r₂, s₂') ∧
        r₁.cause = r₂.cause ∧ Apart z s₁' s₂' := by
  have htidy : (Token.skipBlanks s₂.cursor).Tidy := h.cursor.tidy.skipBlanks
  have hlex : Token.lex s₂.keywords (s₂.cursor.rest.dropWhile isBlank) =
      Token.lex s₁.keywords (s₁.cursor.rest.dropWhile isBlank) := by
    rw [h.cursor.dropWhile_isBlank hz, h.keywords]
    by_cases hcs : s₁.cursor.rest.dropWhile isBlank = []
    · rw [hcs, hne.resolve_left (not_not_intro hcs)]
      rfl
    · exact Token.lex_append _ hcs hz
  -- The slots are empty, so both results are scanned; `hlex` says that they are of one kind.
  have h₁ := s₁.gets
  have h₂ := s₂.gets
  generalize s₁.get = result₁ at h₁ ⊢
  generalize s₂.get = result₂ at h₂ ⊢
  cases h₁ with
  | held slot => rw [hslot] at slot; cases slot
  | @token kind lexeme value t cursor _ lexed₁ token₁ cursor₁ rest₁ =>
    rw [lexed₁] at hlex
    cases h₂ with
    | held slot => rw [hslot'] at slot; cases slot
    | @token _ _ _ u cursor' _ lexed₂ token₂ cursor₂ rest₂ =>
      rw [hlex] at lexed₂
      cases lexed₂
      have halike : AlikeIn z (some t) (some u) := by
        refine ⟨⟨by rw [token₁, token₂], by rw [token₁, token₂], by rw [token₁, token₂]⟩, ?_⟩
        -- in front of `z` the token has characters, and is not the end of the text
        refine hne.symm.imp_right fun hcs => ?_
        have hlexeme : lexeme ≠ [] := by
          rintro rfl
          exact hcs (Token.lex_eq_token_nil.1 lexed₁).1
        simp [token₁, Token.isEnd, hlexeme]
      refine .inl ⟨t, u, _, _, rfl, rfl, hslot, hslot', rfl, rfl, .inl ⟨h.keywords, ?_, ?_, ?_⟩⟩
      · exact h.cursor.of_drop hz (Token.prefix_of_lex lexed₁).length_le
          (by rw [cursor₂]; exact htidy.advance _) rest₁ rest₂
      · show AlikeIn z s₁.slot s₂.slot
        rw [hslot, hslot']
        trivial
      · exact halike
    | bad _ lexed₂ => rw [hlex] at lexed₂; cases lexed₂
  | @bad cause place cursor _ lexed₁ cursor₁ rest₁ =>
    rw [lexed₁] at hlex
    cases h₂ with
    | held slot => rw [hslot'] at slot; cases slot
    | token _ lexed₂ => rw [hlex] at lexed₂; cases lexed₂
    | @bad _ place' cursor' _ lexed₂ cursor₂ rest₂ =>
      rw [hlex] at lexed₂
      cases lexed₂
      obtain ⟨first, after, hcs, -⟩ := Token.lex_eq_bad lexed₁
      refine .inr ⟨_, _, _, _, rfl, rfl, rfl, h.keywords, ?_, ?_, trivial⟩
      · exact h.cursor.of_drop hz (by simp [hcs]) (by rw [cursor₂]; exact htidy.advance _)
          rest₁ rest₂
      · show AlikeIn z s₁.slot s₂.slot
        rw [hslot, hslot']
        trivial

/-- The end of the text on one side is the terminator on the other. -/
theorem Apart.get_of_end (h : Apart z s₁ s₂) (hz : Detached z) (hslot : s₁.slot = none)
    (hslot' : s₂.slot = none) (hcs : s₁.cursor.rest.dropWhile isBlank = []) (hne : z ≠ []) :
    ∃ t₁ t₂ s₁' s₂', s₁.get = (.ok t₁, s₁') ∧ s₂.get = (.ok t₂, s₂') ∧
      HeldApart z t₁ t₂ s₁' s₂' := by
  obtain ⟨sep, y, rfl⟩ := List.exists_cons_of_ne_nil hne
  have hsep : isTerminator sep := hz sep y rfl
  have hrest : s₂.cursor.rest.dropWhile isBlank = sep :: y := by
    rw [h.cursor.dropWhile_isBlank hz, hcs, List.nil_append]
  have htidy : (Token.skipBlanks s₂.cursor).Tidy := h.cursor.tidy.skipBlanks
  have h₁ := s₁.gets
  have h₂ := s₂.gets
  generalize s₁.get = result₁ at h₁ ⊢
  generalize s₂.get = result₂ at h₂ ⊢
  cases h₁ with
  | held slot => rw [hslot] at slot; cases slot
  | bad _ lexed₁ => rw [hcs] at lexed₁; cases lexed₁
  | @token kind lexeme value t cursor _ lexed₁ token₁ cursor₁ rest₁ =>
    rw [hcs] at lexed₁ rest₁
    cases lexed₁
    cases h₂ with
    | held slot => rw [hslot'] at slot; cases slot
    | bad _ lexed₂ => rw [hrest, Token.lex_terminator _ _ hsep] at lexed₂; cases lexed₂
    | @token _ _ _ u cursor' _ lexed₂ token₂ cursor₂ rest₂ =>
      rw [hrest, Token.lex_terminator _ _ hsep] at lexed₂
      cases lexed₂
      rw [hrest] at rest₂
      refine ⟨t, u, _, _, rfl, rfl, hslot, hslot', rfl, rfl,
        .inr ⟨h.keywords, ⟨hne, rest₁, rest₂, fun hhead => ?_⟩, ?_, ?_⟩⟩
      · -- If `z` begins with a line feed, that is the character that was passed.
        rw [cursor₂]
        refine htidy.fresh_advance ?_
        rw [Token.skipBlanks, Cursor.head?_ahead_refill, ← Cursor.rest_refill, ← Token.skipBlanks,
          Token.rest_skipBlanks_eq, hrest]
        exact hhead
      · rw [token₁]
        rfl
      · rw [token₂]

theorem get_of_slot {s : Scanner} {t : Token} (h : s.slot = some t) :
    s.get = (.ok t, { s with slot := none, last := some t }) := by
  obtain ⟨cursor, keywords, slot, last⟩ := s
  cases h
  rfl

/-- The next tokens of scanners that are apart. -/
theorem Apart.get (h : Apart z s₁ s₂) (hz : Detached z) :
    (∃ t₁ t₂ s₁' s₂', s₁.get = (.ok t₁, s₁') ∧ s₂.get = (.ok t₂, s₂') ∧
      HeldApart z t₁ t₂ s₁' s₂') ∨
      ∃ r₁ r₂ s₁' s₂', s₁.get = (.error r₁, s₁') ∧ s₂.get = (.error r₂, s₂') ∧
        r₁.cause = r₂.cause ∧ Apart z s₁' s₂' := by
  have halike := h.slot
  cases hslot : s₁.slot <;> cases hslot' : s₂.slot <;> rw [hslot, hslot'] at halike
  case none.none =>
    -- With both slots empty it depends on whether there is anything in front of `z`.
    by_cases hend : s₁.cursor.rest.dropWhile isBlank = [] ∧ z ≠ []
    · exact .inl (h.get_of_end hz hslot hslot' hend.1 hend.2)
    · refine h.get_of_lex hz hslot hslot' ?_
      by_cases hcs : s₁.cursor.rest.dropWhile isBlank = []
      · exact .inr (Classical.byContradiction fun hne => hend ⟨hcs, hne⟩)
      · exact .inl hcs
  case some.some t u =>
    exact .inl ⟨t, u, _, _, get_of_slot hslot, get_of_slot hslot', rfl, rfl, rfl, rfl,
      .inl ⟨h.keywords, h.cursor, trivial, halike⟩⟩
  all_goals exact halike.elim

/-- The next tokens are alike up to `z`: nothing has been found there yet, or
    what was found is in the slots. -/
def ReadyApart (z : List Char) (s₁ s₂ : Scanner) : Prop :=
  Apart z s₁ s₂ ∨ ∃ t u, s₁.slot = some t ∧ s₂.slot = some u ∧ Parted z t u s₁ s₂

/-- A statement is given up: what was found at `z`, if anything, was read last. -/
def FailedApart (z : List Char) (s₁ s₂ : Scanner) : Prop :=
  Apart z s₁ s₂ ∨ ∃ t u, s₁.latest = some t ∧ s₂.latest = some u ∧ Parted z t u s₁ s₂

/-- Two tokens that are alike and were just handed out leave the scanners
    apart; so do two that are put back. -/
theorem HeldApart.ready_hold {t u : Token} (h : HeldApart z t u s₁ s₂) :
    ReadyApart z (s₁.hold t) (s₂.hold u) := by
  obtain hapart | hparted := h.apart_or_parted
  · refine .inl ⟨hapart.keywords, hapart.cursor, ?_, trivial⟩
    have hlast := hapart.last
    rw [h.last_left, h.last_right] at hlast
    exact hlast
  · exact .inr ⟨t, u, rfl, rfl, hparted.keywords, hparted.cursor, hparted.isEnd,
      hparted.terminator⟩

theorem HeldApart.alike {t u : Token} (h : HeldApart z t u s₁ s₂) (hapart : Apart z s₁ s₂) :
    t.Alike u ∧ (z = [] ∨ t.isEnd = false) := by
  have hlast := hapart.last
  rw [h.last_left, h.last_right] at hlast
  exact hlast

theorem HeldApart.failed {t u : Token} (h : HeldApart z t u s₁ s₂) : FailedApart z s₁ s₂ := by
  refine h.apart_or_parted.imp_right fun hparted => ⟨t, u, ?_, ?_, hparted⟩
  · rw [latest, h.slot_left, h.last_left]
    rfl
  · rw [latest, h.slot_right, h.last_right]
    rfl

theorem ReadyApart.failed (h : ReadyApart z s₁ s₂) : FailedApart z s₁ s₂ := by
  obtain hapart | ⟨t, u, ht, hu, hparted⟩ := h
  · exact .inl hapart
  · refine .inr ⟨t, u, ?_, ?_, hparted⟩
    · rw [latest, ht]
      rfl
    · rw [latest, hu]
      rfl

theorem ReadyApart.get (h : ReadyApart z s₁ s₂) (hz : Detached z) :
    (∃ t₁ t₂ s₁' s₂', s₁.get = (.ok t₁, s₁') ∧ s₂.get = (.ok t₂, s₂') ∧
      HeldApart z t₁ t₂ s₁' s₂') ∨
      ∃ r₁ r₂ s₁' s₂', s₁.get = (.error r₁, s₁') ∧ s₂.get = (.error r₂, s₂') ∧
        r₁.cause = r₂.cause ∧ Apart z s₁' s₂' := by
  obtain hapart | ⟨t, u, ht, hu, hparted⟩ := h
  · exact hapart.get hz
  · exact .inl ⟨t, u, _, _, get_of_slot ht, get_of_slot hu, rfl, rfl, rfl, rfl,
      .inr ⟨hparted.keywords, hparted.cursor, hparted.isEnd, hparted.terminator⟩⟩

end Scanner

open Scanner

/-- Reading keeps scanners apart by `z`. -/
def Lockstep.apart (z : List Char) (hz : Detached z) : Lockstep where
  Stop := Token.IsStop
  Ready := ReadyApart z
  Held := HeldApart z
  Failed := FailedApart z
  Level _ _ := True
  Rejects r₁ r₂ := r₁.cause = r₂.cause
  get h := (h.get hz).imp_right fun ⟨r₁, r₂, s₁', s₂', h₁, h₂, hcause, hapart⟩ =>
    ⟨r₁, r₂, s₁', s₂', h₁, h₂, hcause, .inl hapart⟩
  held_slot h := ⟨h.slot_left, h.slot_right⟩
  ready_hold h := h.ready_hold
  alike_or_stop h := h.apart_or_parted.imp (fun hapart => ⟨(h.alike hapart).1, .inl hapart⟩)
    fun hparted => ⟨.inr (Token.kind_of_isEnd hparted.isEnd), .inl hparted.terminator⟩
  isStop h := h
  failed_of_ready h := h.failed
  failed_of_held h := h.failed
  level _ := trivial
  rejects _ _ _ := rfl

/-! ## Between statements -/

namespace Scanner

variable {z : List Char} {s₁ s₂ : Scanner}

/-- The next statements are alike up to `z`, or the second scanner has passed the
    terminator and the first one has nothing left. -/
def BetweenApart (z : List Char) (s₁ s₂ : Scanner) : Prop :=
  ReadyApart z s₁ s₂ ∨
    s₁.slot = none ∧ s₂.slot = none ∧ s₂.keywords = s₁.keywords ∧
      s₁.cursor.Passed z s₂.cursor

/-- Giving up a statement on both sides leads to the next statements. -/
theorem FailedApart.ignore (h : FailedApart z s₁ s₂) (hz : Detached z) :
    BetweenApart z (s₁.ignore .terminator).2 (s₂.ignore .terminator).2 := by
  rw [ignore_eq, ignore_eq]
  obtain hapart | ⟨t, u, ht, hu, hparted⟩ := h
  · have hlatest : s₁.latest.any (·.kind = .terminator) = s₂.latest.any (·.kind = .terminator) := by
      have halike := hapart.latest
      cases ht : s₁.latest <;> cases hu : s₂.latest <;> rw [ht, hu] at halike
      case none.some => exact halike.elim
      case some.none => exact halike.elim
      case some.some => simp [halike.1.kind]
    rw [← hlatest]
    split
    · exact .inl (.inl ⟨hapart.keywords, hapart.cursor, trivial, hapart.last⟩)
    · obtain hskip | hskip := hapart.cursor.skipThrough hz
      · exact .inl (.inl ⟨hapart.keywords, hskip, trivial, trivial⟩)
      · exact .inr ⟨rfl, rfl, hapart.keywords, hskip⟩
  · -- The end of the text is no terminator, and there is nothing to discard.
    have hkind := Token.kind_of_isEnd hparted.isEnd
    have hcursor := hparted.cursor
    rw [ht, hu, if_neg (by simp [hkind]), if_pos (by simp [hparted.terminator])]
    refine .inr ⟨rfl, rfl, hparted.keywords, hcursor.nonempty, ?_, hcursor.rest_eq_tail,
      hcursor.fresh⟩
    rw [Cursor.rest_skipThrough, hcursor.rest_eq_nil]
    rfl

/-- While the slot is empty, the last token does not matter for the next one. -/
theorem get_forget {s : Scanner} (h : s.slot = none) : { s with last := none }.get = s.get := by
  obtain ⟨cursor, keywords, slot, last⟩ := s
  cases h
  rfl

/-- The scanner `s`, with an empty slot, has passed the terminator where the first
    one is at its end. -/
structure PassedTo (z : List Char) (s₁ s : Scanner) : Prop where
  slot : s.slot = none
  last : s.last = none
  keywords : s.keywords = s₁.keywords
  cursor : s₁.cursor.Passed z s.cursor

end Scanner

theorem firstToken_congr {s s' : Scanner} (h : s.get = s'.get) : firstToken s = firstToken s' := by
  have hnext : next s = next s' := by rw [next, next, h]
  rw [firstToken_eq]
  simp only [Bind.bind, EStateM.bind, hnext]

/-- The first tokens of the next statements are alike, or none can be read on
    either side, or the first scanner is at its end. -/
theorem Scanner.ReadyApart.firstToken {z : List Char} {s₁ s₂ : Scanner}
    (h : ReadyApart z s₁ s₂) (hz : Detached z) :
    (∃ t u s₁' s₂', Calculator.firstToken s₁ = .ok t s₁' ∧ Calculator.firstToken s₂ = .ok u s₂' ∧
      HeldApart z t u s₁' s₂' ∧ Apart z s₁' s₂') ∨
    (∃ r₁ r₂ s₁' s₂', Calculator.firstToken s₁ = .error (.rejected r₁) s₁' ∧
      Calculator.firstToken s₂ = .error (.rejected r₂) s₂' ∧ r₁.cause = r₂.cause ∧
      Apart z s₁' s₂') ∨
    ∃ t s₁' s, Calculator.firstToken s₁ = .ok t s₁' ∧ t.isEnd = true ∧
      Calculator.firstToken s₂ = Calculator.firstToken s ∧ PassedTo z s₁' s := by
  -- Terminators in front of `z` are passed over on both sides.
  induction hn : s₁.remaining using Nat.strongRecOn generalizing s₁ s₂ with
  | ind n ih =>
    subst hn
    obtain ⟨t, u, s₁', s₂', h₁, h₂, hheld⟩ | ⟨r₁, r₂, s₁', s₂', h₁, h₂, hcause, hapart⟩ :=
      h.get hz
    · obtain hapart | hparted := hheld.apart_or_parted
      · have halike := (hheld.alike hapart).1
        by_cases hk : t.kind = .terminator
        · have hle := get_remaining_le h₁
          have hw := Token.weight_of_kind (t := t) (by simp [hk])
          rw [firstToken_of_terminator h₁ hk, firstToken_of_terminator h₂ (halike.kind ▸ hk)]
          exact ih s₁'.remaining (by omega) (.inl hapart) rfl
        · exact .inl ⟨t, u, s₁', s₂', firstToken_of_other h₁ hk,
            firstToken_of_other h₂ (halike.kind ▸ hk), hheld, hapart⟩
      · -- The first scanner is at its end, and the second one passes over the terminator of `z`.
        have hkind := Token.kind_of_isEnd hparted.isEnd
        rw [firstToken_of_terminator h₂ hparted.terminator]
        exact .inr (.inr ⟨t, s₁', { s₂' with last := none },
          firstToken_of_other h₁ (by simp [hkind]), hparted.isEnd,
          firstToken_congr (get_forget hheld.slot_right).symm, hheld.slot_right, rfl,
          hparted.keywords, hparted.cursor⟩)
    · exact .inr (.inl ⟨r₁, r₂, s₁', s₂', firstToken_of_error h₁, firstToken_of_error h₂,
        hcause, hapart⟩)

/-- At the end of the text the first token is that end. -/
theorem firstToken_of_rest_eq_nil {s : Scanner} (hslot : s.slot = none)
    (hrest : s.cursor.rest = []) :
    ∃ t s', firstToken s = .ok t s' ∧ t.isEnd = true ∧ s'.keywords = s.keywords ∧
      s'.cursor.rest = [] := by
  have hgets := s.gets
  cases hget : s.get with
  | mk outcome s' =>
    rw [hget] at hgets
    cases hgets with
    | held slot => rw [hslot] at slot; cases slot
    | bad _ lexed => rw [hrest] at lexed; cases lexed
    | @token kind lexeme value t cursor _ lexed token_eq _ rest_eq =>
      rw [hrest] at lexed rest_eq
      cases lexed
      refine ⟨t, { s with cursor, last := some t }, ?_, by rw [token_eq]; rfl, rfl, rest_eq⟩
      exact firstToken_of_other hget (by simp [token_eq])

end Calculator
