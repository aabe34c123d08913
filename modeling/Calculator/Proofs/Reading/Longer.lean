import Calculator.Proofs.Reading.Places
import Calculator.Proofs.Session.Walk
import Calculator.Proofs.Text.Longer

/-! # Scanners with more lines behind them

    Two scanners that differ in what is behind the whole lines of the first one
    hand out the same tokens in the same places, until the first one is at its
    end (`Scanner.Longer.get`). While a statement is read that does not happen,
    for nothing behind its line is asked for. So the readers keep such scanners
    in lockstep (`Lockstep.longer`), and a rejection is the same with its place.

    A statement that is given up is discarded on its line as well: either its
    terminator was the token that was read last, or the line feed is still ahead
    (`Scanner.NewlineAhead`).
-/

namespace Calculator

open Text (Cursor WholeLines isBlank)

/-! ## Scanning -/

section scanning
variable {z : List Char} {c₁ c₂ : Cursor}

/-- In whole lines there is something behind the blanks: the line feed is none. -/
theorem WholeLines.dropWhile_isBlank_ne_nil {cs : List Char} (h : WholeLines cs) (hne : cs ≠ []) :
    cs.dropWhile isBlank ≠ [] := by
  intro hnil
  have hblanks := List.takeWhile_append_dropWhile (p := isBlank) (l := cs)
  rw [hnil, List.append_nil] at hblanks
  have hmem : '\n' ∈ cs := List.mem_of_getLast? (h.getLast? hne)
  exact absurd (List.all_eq_true.1 List.all_takeWhile _ (hblanks.symm ▸ hmem)) (by decide)

/-- The same blanks are skipped, on the same line. -/
theorem skipBlanks_longer (h : c₁.Longer z c₂) (hrest : c₁.rest ≠ []) :
    (Token.skipBlanks c₁).Longer z (Token.skipBlanks c₂) := by
  have hrefill := h.refill hrest
  unfold Token.skipBlanks
  rw [hrefill.ahead]
  refine (hrefill.advance _).refill ?_
  rw [← Cursor.rest_refill, ← Token.skipBlanks, Token.rest_skipBlanks_eq]
  exact WholeLines.dropWhile_isBlank_ne_nil h.whole hrest

/-- The same token is found on the line, or the same character rejected. -/
theorem scanHere_longer (keywords : Keywords) (h : c₁.Longer z c₂) :
    (Token.scanHere keywords c₂).1 = (Token.scanHere keywords c₁).1 ∧
      (Token.scanHere keywords c₁).2.Longer z (Token.scanHere keywords c₂).2 := by
  unfold Token.scanHere Token.reject
  rw [h.ahead, h.line, h.column]
  split
  · exact ⟨rfl, h⟩
  · split
    · exact ⟨rfl, h.advance 1⟩
    · split
      · exact ⟨rfl, h.advance _⟩
      · exact ⟨rfl, h.advance _⟩
      · split <;> exact ⟨rfl, h.advance 1⟩

end scanning

/-! ## Scanners -/

namespace Scanner

/-- The scanners are alike, but `s₂` has the text `z` behind the whole lines that
    are left for `s₁`. -/
structure Longer (z : List Char) (s₁ s₂ : Scanner) : Prop where
  keywords : s₂.keywords = s₁.keywords
  slot : s₂.slot = s₁.slot
  last : s₂.last = s₁.last
  cursor : s₁.cursor.Longer z s₂.cursor

/-- The line feed is ahead, unless a terminator was read last. -/
def NewlineAhead (s : Scanner) : Prop :=
  (∀ t, s.latest = some t → t.kind ≠ .terminator) → '\n' ∈ s.cursor.ahead

variable {z L A : List Char} {s s' s₁ s₂ : Scanner} {t : Token} {r : Rejection}

theorem longer_ofText {text : List Char} (h : WholeLines text) (keywords : Keywords)
    (z : List Char) : (ofText keywords text).Longer z (ofText keywords (text ++ z)) :=
  ⟨rfl, rfl, rfl, Cursor.longer_ofText h z⟩

theorem Longer.hold (h : s₁.Longer z s₂) (t : Token) : (s₁.hold t).Longer z (s₂.hold t) :=
  ⟨h.keywords, rfl, rfl, h.cursor⟩

/-- If anything is left for the first scanner, the second one hands out the same. -/
theorem Longer.get (h : s₁.Longer z s₂) (hleft : s₁.slot = none → s₁.cursor.rest ≠ []) :
    ∃ outcome s₁' s₂', s₁.get = (outcome, s₁') ∧ s₂.get = (outcome, s₂') ∧ s₁'.Longer z s₂' := by
  obtain ⟨c₁, _, _, _⟩ := s₁
  obtain ⟨c₂, keywords, slot, last⟩ := s₂
  obtain ⟨hkeywords, hslot, hlast, hcursor⟩ := h
  dsimp only at hkeywords hslot hlast hcursor hleft
  subst hkeywords hslot hlast
  cases slot with
  | some t => exact ⟨.ok t, _, _, rfl, rfl, rfl, rfl, rfl, hcursor⟩
  | none =>
    obtain ⟨houtcome, hrest⟩ := scanHere_longer keywords (skipBlanks_longer hcursor (hleft rfl))
    rw [← Token.scan, ← Token.scan] at houtcome hrest
    unfold Scanner.get
    dsimp only
    cases h₁ : Token.scan keywords c₁ with
    | mk outcome₁ c₁' =>
      cases h₂ : Token.scan keywords c₂ with
      | mk outcome₂ c₂' =>
        rw [h₁, h₂] at houtcome hrest
        dsimp only at houtcome
        subst houtcome
        cases outcome₂ with
        | ok t => exact ⟨.ok t, _, _, rfl, rfl, rfl, rfl, rfl, hrest⟩
        | error r => exact ⟨.error r, _, _, rfl, rfl, rfl, rfl, rfl, hrest⟩

/-! ## Giving up -/

/-- A character that begins no token is no line feed. -/
theorem newlineAhead_of_get_error (h : s.get = (.error r, s'))
    (hline : s'.cursor.line.getLast? = some '\n') : s'.NewlineAhead := by
  intro _
  obtain ⟨-, hcursor, -, x, after, hahead, hx, -⟩ := get_error_place h
  rw [hcursor] at hline ⊢
  have hinside : (Token.skipBlanks s.cursor).Inside (Token.skipBlanks s.cursor).line
      (Token.skipBlanks s.cursor).unread :=
    ⟨Cursor.keeps_self _, fun _ hnil => by rw [hahead] at hnil; cases hnil⟩
  refine (hinside.advance ?_).newline_mem hline
  rw [hahead]
  simpa using hx.symm

/-- What is recorded when input is discarded. -/
theorem ignore_fst_eq (kind : Token.Kind) (s : Scanner) :
    (s.ignore kind).1 =
      if s.latest.any (·.kind = kind) then none
      else some (s.cursor.skipThrough (Token.Kind.ofSymbol? · = some kind)).1 := by
  obtain ⟨cursor, keywords, slot, last⟩ := s
  unfold ignore latest
  cases slot with
  | some t => by_cases hk : t.kind = kind <;> simp [hk, skip]
  | none =>
    cases last with
    | some t => by_cases hk : t.kind = kind <;> simp [hk, skip]
    | none => simp [skip]

theorem NewlineAhead.mem (h : s.NewlineAhead)
    (hlatest : ¬ s.latest.any (·.kind = .terminator) = true) : '\n' ∈ s.cursor.ahead := by
  refine h fun t ht hk => hlatest ?_
  simp [ht, hk]

/-- Nothing behind the line is discarded. -/
theorem NewlineAhead.ignore (h : s.NewlineAhead) (hstays : s.cursor.StaysOn L A) :
    (s.ignore .terminator).2.cursor.StaysOn L A := by
  rw [ignore_eq]
  split
  · exact hstays
  · next hlatest =>
    rw [Cursor.skipThrough_of_mem (h.mem hlatest) (by decide)]
    exact hstays.advance _

/-- The same is discarded for both. -/
theorem Longer.ignore (h : s₁.Longer z s₂) (hahead : s₁.NewlineAhead) :
    (s₂.ignore .terminator).1 = (s₁.ignore .terminator).1 ∧
      (s₁.ignore .terminator).2.Longer z (s₂.ignore .terminator).2 := by
  have hlatest : s₂.latest = s₁.latest := by rw [latest, latest, h.slot, h.last]
  rw [ignore_fst_eq, ignore_fst_eq, ignore_eq, ignore_eq, hlatest]
  by_cases hterminator : s₁.latest.any (·.kind = .terminator) = true
  · rw [if_pos hterminator, if_pos hterminator, if_pos hterminator, if_pos hterminator]
    exact ⟨rfl, h.keywords, rfl, h.last, h.cursor⟩
  · obtain ⟨hcount, hcursor⟩ := h.cursor.skipThrough (Token.Kind.ofSymbol? · = some .terminator)
      (hahead.mem hterminator) (by decide)
    rw [if_neg hterminator, if_neg hterminator, if_neg hterminator, if_neg hterminator]
    exact ⟨congrArg some hcount, h.keywords, rfl, rfl, hcursor⟩

end Scanner

open Scanner

/-! ## Statements -/

/-- While a statement is read on the line `L`, the scanners stay alike. -/
def Lockstep.longer (z L A : List Char) (hne : L ≠ []) (hfeed : L.getLast? = some '\n') :
    Lockstep where
  Stop t := t.kind = .terminator
  Ready s₁ s₂ := s₁.Longer z s₂ ∧ (Invariant.onLine L A hne).Ready s₁
  Held t₁ t₂ s₁ s₂ := t₁ = t₂ ∧ s₁.last = some t₁ ∧ s₁.Longer z s₂ ∧
    (Invariant.onLine L A hne).Held t₁ s₁
  Failed s₁ s₂ := s₁.Longer z s₂ ∧ s₁.cursor.Keeps L A ∧ s₁.NewlineAhead
  Level t₁ t₂ := t₁ = t₂
  Rejects r₁ r₂ := r₁ = r₂
  get := by
    rintro s₁ s₂ ⟨hlonger, hready⟩
    have hleft (hslot : s₁.slot = none) : s₁.cursor.rest ≠ [] :=
      List.append_ne_nil_of_left_ne_nil ((hready.1 hslot).2 hfeed) _
    obtain ⟨outcome, s₁', s₂', h₁, h₂, hrest⟩ := hlonger.get hleft
    cases outcome with
    | ok t =>
      exact .inl ⟨t, t, s₁', s₂', h₁, h₂, rfl, (slot_last_of_get h₁).2, hrest,
        Invariant.held_of_get hready h₁⟩
    | error r =>
      have hkeeps : s₁'.cursor.Keeps L A := Invariant.failed_of_get hready h₁
      have hline := (hkeeps.staysOn hfeed).line
      exact .inr ⟨r, r, s₁', s₂', h₁, h₂, rfl, hrest, hkeeps,
        newlineAhead_of_get_error h₁ (hline.symm ▸ hfeed)⟩
  held_slot := by
    rintro t _ s₁ s₂ ⟨rfl, -, hlonger, hheld⟩
    exact ⟨hheld.1, hlonger.slot.trans hheld.1⟩
  ready_hold := by
    rintro t _ s₁ s₂ ⟨rfl, -, hlonger, hheld⟩
    exact ⟨hlonger.hold t, Invariant.ready_hold _ hheld⟩
  alike_or_stop := by
    rintro t _ s₁ s₂ ⟨rfl, -, hlonger, hheld⟩
    obtain hready | hstop := Invariant.ready_or_stop _ hheld
    · exact .inl ⟨.refl t, hlonger, hready⟩
    · exact .inr ⟨hstop, hstop⟩
  isStop := @Token.isStop_of_terminator
  failed_of_ready := by
    rintro s₁ s₂ ⟨hlonger, hready⟩
    refine ⟨hlonger, Invariant.failed_of_ready _ hready, fun hlatest => ?_⟩
    cases hslot : s₁.slot with
    | none => exact (hready.1 hslot).newline_mem hfeed
    | some t =>
      have ht : s₁.latest = some t := by rw [latest, hslot]; rfl
      exact ((hready.2 t hslot).inside (hlatest t ht)).newline_mem hfeed
  failed_of_held := by
    rintro t _ s₁ s₂ ⟨rfl, hlast, hlonger, hheld⟩
    refine ⟨hlonger, Invariant.failed_of_held _ hheld, fun hlatest => ?_⟩
    have ht : s₁.latest = some t := by rw [latest, hheld.1, hlast]; rfl
    exact (hheld.2.inside (hlatest t ht)).newline_mem hfeed
  level h := h.1
  rejects := by
    rintro t _ s₁ s₂ cause rfl ⟨hlonger, -⟩
    rw [hlonger.cursor.line]

end Calculator
