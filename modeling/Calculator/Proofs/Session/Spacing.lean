import Calculator.Proofs.Session.Isolation
import Calculator.Proofs.Token.Spacing

/-! # Sessions on spaced texts

    Blanks between the tokens of a text do not matter to a session: it comes to the
    same values and rejections, and leaves the same bindings
    (`Session.blanks_do_not_matter`).

    The readers see tokens, and those are alike (`Lockstep.spaced`). Only recovery
    passes over characters. It stops at a terminator, which is a token by itself in
    both texts, so behind it they are spaced in the same sense again
    (`Spaced.behindTerminator`).
-/

namespace Calculator

open Reading Scanner
open Text (isBlank)

/-! ## Giving up a statement -/

section recovery
variable {keywords : Keywords} {cs ds : List Char}

theorem behindTerminator_cons_of_not {x : Char} (hx : isTerminator x = false) (cs : List Char) :
    behindTerminator (x :: cs) = behindTerminator cs := by
  have hone : ∀ c ∈ [x], isTerminator c = false := by simpa using hx
  exact behindTerminator_append hone cs

theorem not_isTerminator_of_isBlank {x : Char} (hx : isBlank x) : isTerminator x = false := by
  refine Bool.eq_false_iff.2 fun h => ?_
  rw [isBlank_of_isTerminator x h] at hx
  cases hx

/-- A spaced text is one behind its first terminator, too. -/
theorem Token.Spaced.behindTerminator (hk : Token.Avoids keywords .terminator)
    (h : Token.Spaced keywords cs ds) :
    Token.Spaced keywords (behindTerminator cs) (behindTerminator ds) := by
  induction h with
  | nil => exact .nil
  | blank hx _ ih =>
    have hother := not_isTerminator_of_isBlank hx
    rwa [behindTerminator_cons_of_not hother, behindTerminator_cons_of_not hother]
  | inserted hx _ ih => rwa [behindTerminator_cons_of_not (not_isTerminator_of_isBlank hx)]
  | @token w cs ds kind value lexed nonempty h ih =>
    by_cases hkind : kind = .terminator
    · subst hkind
      obtain ⟨x, after, -, hx, rfl⟩ := Token.lex_eq_terminator hk lexed
      rw [List.singleton_append, List.singleton_append, behindTerminator_cons hx,
        behindTerminator_cons hx]
      exact h
    · have hother {x : Char} (hx : x ∈ w) := Token.isTerminator_of_mem_lexeme lexed hkind hx
      rwa [behindTerminator_append fun _ hx => hother hx,
        behindTerminator_append fun _ hx => hother hx]
  | @rejected x cs ds cause lexed _ _ ih =>
    obtain ⟨first, after, hcs, hother, -⟩ := Token.lex_eq_bad lexed
    obtain ⟨rfl, rfl⟩ := List.cons.inj hcs
    rwa [behindTerminator_cons_of_not hother, behindTerminator_cons_of_not hother]

end recovery

namespace Scanner

variable {keywords : Keywords} {s₁ s₂ : Scanner}

theorem Spaced.latest (h : s₁.Spaced keywords s₂) : Option.Rel Token.Alike s₁.latest s₂.latest := by
  have hslot := h.slot
  unfold Scanner.latest
  cases h₁ : s₁.slot <;> cases h₂ : s₂.slot <;> rw [h₁, h₂] at hslot
  case none.none => exact h.last
  case some.some => exact hslot
  all_goals cases hslot

theorem Spaced.ignore (hk : Token.Avoids keywords .terminator) (h : s₁.Spaced keywords s₂) :
    (s₁.ignore .terminator).2.Spaced keywords (s₂.ignore .terminator).2 := by
  have hlatest : s₁.latest.any (·.kind = .terminator) = s₂.latest.any (·.kind = .terminator) := by
    have halike := h.latest
    cases h₁ : s₁.latest <;> cases h₂ : s₂.latest <;> rw [h₁, h₂] at halike
    case some.some t u =>
      obtain ⟨halike⟩ := halike
      simp [halike.kind]
    all_goals cases halike
  rw [ignore_eq, ignore_eq, ← hlatest]
  split
  · exact ⟨h.left, h.right, h.rest, .none, h.last⟩
  · refine ⟨h.left, h.right, ?_, .none, .none⟩
    dsimp only
    rw [Text.Cursor.rest_skipThrough, Text.Cursor.rest_skipThrough]
    exact h.rest.behindTerminator hk

/-! ## First tokens -/

/-- Two tokens that are alike were just handed out. -/
structure HeldSpaced (keywords : Keywords) (t u : Token) (s₁ s₂ : Scanner) : Prop where
  alike : t.Alike u
  slot_left : s₁.slot = none
  slot_right : s₂.slot = none
  spaced : s₁.Spaced keywords s₂

theorem Spaced.get_cases (h : s₁.Spaced keywords s₂) :
    (∃ t u s₁' s₂', s₁.get = (.ok t, s₁') ∧ s₂.get = (.ok u, s₂') ∧
      HeldSpaced keywords t u s₁' s₂') ∨
      ∃ r q s₁' s₂', s₁.get = (.error r, s₁') ∧ s₂.get = (.error q, s₂') ∧ r.cause = q.cause ∧
        s₁'.Spaced keywords s₂' := by
  obtain ⟨hagree, hspaced⟩ := h.get
  have hslot₁ := s₁.get_rest_le.1
  have hslot₂ := s₂.get_rest_le.1
  generalize s₁.get = result₁ at *
  generalize s₂.get = result₂ at *
  obtain ⟨r | t, s₁'⟩ := result₁ <;> obtain ⟨q | u, s₂'⟩ := result₂
  · exact .inr ⟨r, q, s₁', s₂', rfl, rfl, hagree, hspaced⟩
  · exact hagree.elim
  · exact hagree.elim
  · exact .inl ⟨t, u, s₁', s₂', rfl, rfl, hagree, hslot₁, hslot₂, hspaced⟩

theorem Spaced.firstToken (h : s₁.Spaced keywords s₂) :
    (∃ t u s₁' s₂', Calculator.firstToken s₁ = .ok t s₁' ∧ Calculator.firstToken s₂ = .ok u s₂' ∧
      HeldSpaced keywords t u s₁' s₂') ∨
    ∃ r q s₁' s₂', Calculator.firstToken s₁ = .error (.rejected r) s₁' ∧
      Calculator.firstToken s₂ = .error (.rejected q) s₂' ∧ r.cause = q.cause ∧
      s₁'.Spaced keywords s₂' := by
  -- Terminators are passed over on both sides.
  induction hn : s₁.remaining using Nat.strongRecOn generalizing s₁ s₂ with
  | ind n ih =>
    subst hn
    obtain ⟨t, u, s₁', s₂', h₁, h₂, hheld⟩ | ⟨r, q, s₁', s₂', h₁, h₂, hcause, hspaced⟩ :=
      h.get_cases
    · have hkind := hheld.alike.kind
      by_cases hk : t.kind = .terminator
      · have hle := get_remaining_le h₁
        have hw := Token.weight_of_kind (t := t) (by simp [hk])
        rw [firstToken_of_terminator h₁ hk, firstToken_of_terminator h₂ (hkind ▸ hk)]
        exact ih s₁'.remaining (by omega) hheld.spaced rfl
      · exact .inl ⟨t, u, s₁', s₂', firstToken_of_other h₁ hk,
          firstToken_of_other h₂ (hkind ▸ hk), hheld⟩
    · exact .inr ⟨r, q, s₁', s₂', firstToken_of_error h₁, firstToken_of_error h₂, hcause, hspaced⟩

end Scanner

/-- Reading keeps scanners on spaced texts. -/
def Lockstep.spaced (keywords : Keywords) : Lockstep where
  Stop _ := False
  Ready := Scanner.Spaced keywords
  Held := HeldSpaced keywords
  Failed := Scanner.Spaced keywords
  Level _ _ := True
  Rejects r₁ r₂ := r₁.cause = r₂.cause
  get h := h.get_cases
  held_slot h := ⟨h.slot_left, h.slot_right⟩
  ready_hold h := ⟨h.spaced.left, h.spaced.right, h.spaced.rest, .some h.alike, .none⟩
  alike_or_stop h := .inl ⟨h.alike, h.spaced⟩
  isStop := False.elim
  failed_of_ready h := h
  failed_of_held h := h.spaced
  level _ := trivial
  rejects _ _ _ := rfl

namespace Session

variable {d : Dialect} {s₁ s₂ : Session}

/-! ## Turns -/

/-- The second session has blanks more to read between the tokens. -/
structure Spaced (d : Dialect) (s₁ s₂ : Session) : Prop where
  left : s₁.dialect = d
  right : s₂.dialect = d
  bindings : s₂.bindings = s₁.bindings
  scanner : s₁.scanner.Spaced d.keywords s₂.scanner

/-- What a turn comes to on spaced texts. -/
inductive TurnsSpaced (d : Dialect) (s₁ s₂ : Session) : Prop where
  | value {o s₁' s₂'} (left : s₁.turn = .ok (some o) s₁') (right : s₂.turn = .ok (some o) s₂')
    (spaced : s₁'.Spaced d s₂')
  | rejected {r₁ r₂ s₁' s₂'} (left : s₁.turn = .error (.rejected r₁) s₁')
    (right : s₂.turn = .error (.rejected r₂) s₂') (cause : r₁.cause = r₂.cause)
    (spaced : s₁'.Spaced d s₂')
  | ended {s₁' s₂'} (left : s₁.turn = .ok none s₁') (right : s₂.turn = .ok none s₂')
    (spaced : s₁'.Spaced d s₂')

theorem Spaced.recover (hd : d.IsBuiltIn) (h : s₁.Spaced d s₂) :
    s₁.recover.2.Spaced d s₂.recover.2 := by
  rw [recover_eq, recover_eq]
  exact ⟨h.left, h.right, h.bindings, h.scanner.ignore hd.avoids_terminator⟩

/-- The rest of a statement, behind first tokens that are alike. -/
theorem Spaced.turn_of_held (hd : d.IsBuiltIn) (h : s₁.Spaced d s₂) {t u : Token}
    {scanner₁ scanner₂ : Scanner} (h₁ : firstToken s₁.scanner = .ok t scanner₁)
    (h₂ : firstToken s₂.scanner = .ok u scanner₂)
    (hheld : HeldSpaced d.keywords t u scanner₁ scanner₂) : TurnsSpaced d s₁ s₂ := by
  have hkind := hheld.alike.kind
  have hclosable := hd.groupsWithin.closable
  by_cases hquit : t.kind = .quit
  · exact .ended (turn_of_quit h₁ hquit) (turn_of_quit h₂ (hkind ▸ hquit))
      ⟨h.left, h.right, h.bindings, hheld.spaced⟩
  · have hquit₂ : u.kind ≠ .quit := hkind ▸ hquit
    have hboth := Lockstep.both_statementAfter (L := .spaced d.keywords) (d := d)
      (b := s₁.bindings) (fun _ ht => ht.elim) hheld
    unfold Lockstep.Both at hboth
    cases hr₁ : statementAfter d s₁.bindings t scanner₁ <;>
      cases hr₂ : statementAfter d s₁.bindings u scanner₂ <;> rw [hr₁, hr₂] at hboth <;>
      rw [← h.left] at hr₁ <;> rw [← h.right, ← h.bindings] at hr₂
    case ok.ok a₁ r₁ a₂ r₂ =>
      -- The same action is carried out with the same bindings, or refused for the same cause.
      obtain ⟨rfl, hready⟩ := hboth
      have hturn₁ := turn_of_action h₁ hquit hr₁
      have hturn₂ := turn_of_action h₂ hquit₂ hr₂
      rw [h.bindings] at hturn₂
      cases hchange : s₁.bindings.change? a₁ <;> rw [hchange] at hturn₁ hturn₂
      case error cause =>
        exact .rejected hturn₁ hturn₂ rfl ⟨h.left, h.right, rfl, hready⟩
      case ok change =>
        exact .value hturn₁ hturn₂ ⟨h.left, h.right, rfl, hready⟩
    case error.error e₁ r₁ e₂ r₂ =>
      -- Every group can be closed, so both statements are rejected.
      obtain ⟨hfault, hfailed⟩ := hboth
      have hturn₁ := turn_of_stopped h₁ hquit hr₁
      have hturn₂ := turn_of_stopped h₂ hquit₂ hr₂
      obtain ⟨c₁, rfl⟩ := turn_error_of_closable (h.left ▸ hclosable) hturn₁
      obtain ⟨c₂, rfl⟩ := turn_error_of_closable (h.right ▸ hclosable) hturn₂
      exact .rejected hturn₁ hturn₂ hfault ⟨h.left, h.right, h.bindings, hfailed⟩
    all_goals exact hboth.elim

theorem Spaced.turn (hd : d.IsBuiltIn) (h : s₁.Spaced d s₂) : TurnsSpaced d s₁ s₂ := by
  obtain ⟨t, u, scanner₁, scanner₂, h₁, h₂, hheld⟩ |
    ⟨r, q, scanner₁, scanner₂, h₁, h₂, hcause, hspaced⟩ := h.scanner.firstToken
  · exact h.turn_of_held hd h₁ h₂ hheld
  · exact .rejected (turn_of_error h₁) (turn_of_error h₂) hcause
      ⟨h.left, h.right, h.bindings, hspaced⟩

/-! ## Runs -/

/-- Along the turns of the two sessions. -/
theorem Spaced.run (hd : d.IsBuiltIn) (h : s₁.Spaced d s₂) :
    s₂.run.verdicts = s₁.run.verdicts ∧ s₂.run.final.bindings = s₁.run.final.bindings := by
  induction s₁ using run_induction generalizing s₂ with
  | turn s₁ hvalue hrecovery =>
    cases h.turn hd with
    | value left right spaced =>
      obtain ⟨hverdicts, hbindings⟩ := hvalue _ _ left spaced
      rw [run_eq s₁, run_eq s₂, left, right]
      exact ⟨congrArg (_ :: ·) hverdicts, hbindings⟩
    | rejected left right cause spaced =>
      obtain ⟨hverdicts, hbindings⟩ := hrecovery _ _ left (spaced.recover hd)
      rw [run_eq s₁, run_eq s₂, left, right]
      exact ⟨congrArg₂ (Except.error · :: ·) cause.symm hverdicts, hbindings⟩
    | ended left right spaced =>
      rw [run_eq s₁, run_eq s₂, left, right]
      exact ⟨rfl, spaced.bindings⟩

theorem spaced_ofText (b : Bindings) {text text' : List Char}
    (h : Token.Spaced d.keywords text text') :
    (ofText d b text).Spaced d (ofText d b text') :=
  ⟨rfl, rfl, rfl, Scanner.spaced_ofText h⟩

/-! ## Blanks between tokens -/

/-- Blanks do not matter where they tear no token. The calls on a text take its pieces,
    blanks and behind them a token or a rejected character. Whatever blanks are put
    in front of the lexemes and behind them, the calls give the same tokens and reject
    the same characters, and sessions in the built-in dialects come to the same values
    and rejections and leave the same bindings. And tokens that were scanned anywhere
    are scanned again, one after the other, where their lexemes stand with single
    blanks between them. -/
theorem blanks_do_not_matter (keywords : Keywords) (text : List Char) :
    (∃ (ps : List (Piece text)) (blanks : List Char),
      (∀ n (hn : n < ps.length), (Scanner.ofText keywords text).given n = ps[n].result) ∧
      (∀ n, ps.length ≤ n → (Scanner.ofText keywords text).given n = .ok .endOfText) ∧
      ps.flatMap Piece.chars ++ blanks = text ∧ (∀ x ∈ blanks, isBlank x) ∧
      ∀ (before after : Nat → List Char) (last : List Char),
        (∀ n, ∀ x ∈ before n, isBlank x) → (∀ n, ∀ x ∈ after n, isBlank x) →
        (∀ x ∈ last, isBlank x) →
        let text' := Piece.spread before after ps ++ (blanks ++ last)
        (∀ n, Agree ((Scanner.ofText keywords text).given n)
          ((Scanner.ofText keywords text').given n)) ∧
        ∀ d : Dialect, d.IsBuiltIn → d.keywords = keywords → ∀ b : Bindings,
          (ofText d b text').run.verdicts = (ofText d b text).run.verdicts ∧
          (ofText d b text').run.final.bindings = (ofText d b text).run.final.bindings ∧
          (ofText d b text').run.fault = none ∧ (ofText d b text).run.fault = none) ∧
    ∀ ts : List Token, (∀ t ∈ ts, Token.Scanned keywords t) →
      ∀ n, Agree (.ok (ts[n]?.getD .endOfText))
        ((Scanner.ofText keywords (Token.joined ts)).given n) := by
  have hrest (cs : List Char) : (Scanner.ofText keywords cs).cursor.rest = cs :=
    Text.Cursor.rest_ofText cs
  constructor
  · have hsettled : (Scanner.ofText keywords text).Settled text :=
      ⟨rfl, Text.Cursor.Settled.ofText text⟩
    obtain ⟨ps, blanks, hgiven, hend, -, hchars, hblank, -⟩ := hsettled.pieces [] (hrest text)
    refine ⟨ps, blanks, hgiven, hend, hchars.trans (hrest text), hblank, ?_⟩
    intro before after last hbefore hafter hlast text'
    have hspaced : Token.Spaced keywords text text' := by
      have hspread := spaced_spread (s := Scanner.ofText keywords text) rfl before after hbefore
        hafter hgiven hblank hlast hchars.symm
      rwa [hrest] at hspread
    refine ⟨(Scanner.spaced_ofText hspaced).given, ?_⟩
    rintro d hd rfl b
    have hclosable := hd.groupsWithin.closable
    obtain ⟨hverdicts, hbindings⟩ := (spaced_ofText b hspaced).run hd
    exact ⟨hverdicts, hbindings, run_fault_eq_none _ hclosable, run_fault_eq_none _ hclosable⟩
  · intro ts hts n
    refine given_joined rfl hts ?_ n
    rw [hrest]

end Session

end Calculator
