import Calculator.Proofs.Session.Apart
import Calculator.Proofs.Token.Lexemes
import Calculator.Proofs.Token.Words

/-! # Blanks between tokens

    `Token.Spaced` relates a text to the texts that have more blanks in front of its
    tokens, behind them, or around its rejected characters. The token at the start is
    the same in both (`Spaced.step`): what could make it longer would have to
    reach up to a blank, and in front of the first blank the spaced text has nothing
    that the other one does not have (`Spaced.takeWhile_prefix`).

    So calls give the same tokens and reject the same characters in both texts
    (`Scanner.Spaced.given`). The pieces of a text with blanks put around them are
    a text of this kind (`Scanner.spaced_spread`).
-/

namespace Calculator

open Text (isBlank)

/-! ## The first blank -/

section blanks
variable {language : List Char → Prop} {v w cs ds : List Char}

theorem prefix_takeWhile {p : Char → Bool} (hv : ∀ x ∈ v, p x) (h : v <+: ds) :
    v <+: ds.takeWhile p := by
  obtain ⟨z, rfl⟩ := h
  rw [List.takeWhile_append_of_pos hv]
  exact List.prefix_append v _

theorem Longest.unique (hv : Longest language v cs) (hw : Longest language w cs) : v = w := by
  have hlength := Nat.le_antisymm (hw.longest v hv.mem hv.start) (hv.longest w hw.mem hw.start)
  have hprefix := List.prefix_of_prefix_length_le hv.start hw.start (Nat.le_of_eq hlength)
  exact hprefix.eq_of_length hlength

/-- The longest text without blanks is the longest one in front of the first blank. -/
theorem Longest.of_takeWhile (hlanguage : ∀ v, language v → ∀ x ∈ v, isBlank x = false)
    (h : Longest language w cs) (hw : w <+: ds) (hds : ds.takeWhile (!isBlank ·) <+: cs) :
    Longest language w ds := by
  refine ⟨h.mem, hw, fun v hv hstart => h.longest v hv ?_⟩
  exact (prefix_takeWhile (by simpa using hlanguage v hv) hstart).trans hds

end blanks

namespace Token

variable {keywords : Keywords} {w cs ds : List Char} {kind : Kind} {value : Float}

theorem not_isBlank_of_lex (h : lex keywords cs = .token kind w value) (hne : w ≠ []) :
    ∀ x ∈ w, isBlank x = false :=
  not_isBlank_of_spells (spells_of_lexes (lexes_of_lex h) hne)

/-- A token is found again in front of a blank, and in front of what it was found in
    front of before. -/
theorem lex_token_of_takeWhile (h : lex keywords cs = .token kind w value) (hne : w ≠ [])
    (hw : w <+: ds) (hds : ds.takeWhile (!isBlank ·) <+: cs) :
    lex keywords ds = .token kind w value := by
  have hcs := h
  cases lexes_of_lex h with
  | ended => exact absurd rfl hne
  | symbol hx => exact lex_of_symbol keywords hx hw
  | @number n hn =>
    have hnumber := Numeral.isNumber_of_scan? hn
    obtain ⟨w₁, value₁, hlongest₁, hvalue₁, hlex₁⟩ :=
      lex_of_number keywords hnumber (Numeral.text_prefix hn)
    obtain ⟨w₂, value₂, hlongest₂, hvalue₂, hlex₂⟩ := lex_of_number keywords hnumber hw
    rw [hcs] at hlex₁
    cases hlex₁
    obtain rfl := hlongest₂.unique
      (hlongest₁.of_takeWhile (fun v hv => not_isBlank_of_spells (.inr (.inl hv))) hw hds)
    rw [hvalue₁] at hvalue₂
    cases hvalue₂
    exact hlex₂
  | word hscan =>
    have hword := longest_of_scanWord? hscan
    obtain ⟨w₂, hlongest₂, hlex₂⟩ := lex_of_word keywords hword.mem hw
    obtain rfl := hlongest₂.unique
      (hword.of_takeWhile (fun v hv => not_isBlank_of_spells (.inr (.inr hv))) hw hds)
    exact hlex₂

/-- Why a character is rejected depends on the character alone. -/
theorem cause_of_lex_bad {x : Char} {cause : Cause} (h : lex keywords (x :: cs) = .bad cause) :
    cause = if x = '.' then .malformedNumber x else .unexpectedCharacter x := by
  unfold lex at h
  dsimp only at h
  split at h
  · cases h
  · split at h
    · cases h
    · cases h
    · split at h
      · next hpoint => cases h; rw [if_pos hpoint]
      · next hpoint => cases h; rw [if_neg hpoint]

/-- A rejected character is rejected again. -/
theorem lex_bad_of_takeWhile {x : Char} {cause : Cause} (h : lex keywords (x :: cs) = .bad cause)
    (hds : (x :: ds).takeWhile (!isBlank ·) <+: x :: cs) :
    lex keywords (x :: ds) = .bad cause := by
  have hnone := ((lex_eq_bad_iff keywords).1 ⟨cause, h⟩).2
  obtain ⟨cause', h'⟩ := (lex_eq_bad_iff keywords).2
    ⟨List.cons_ne_nil x ds, fun v hv hspells => hnone v
      ((prefix_takeWhile (by simpa using not_isBlank_of_spells hspells) hv).trans hds) hspells⟩
  rw [h', cause_of_lex_bad h, cause_of_lex_bad h']

/-! ## Spaced texts -/

/-- The second text is the first one, with blanks put in where no token is torn. -/
inductive Spaced (keywords : Keywords) : List Char → List Char → Prop where
  | nil : Spaced keywords [] []
  | blank {x : Char} {cs ds : List Char} (hx : isBlank x) (h : Spaced keywords cs ds) :
    Spaced keywords (x :: cs) (x :: ds)
  | inserted {x : Char} {cs ds : List Char} (hx : isBlank x) (h : Spaced keywords cs ds) :
    Spaced keywords cs (x :: ds)
  | token {w cs ds : List Char} {kind : Kind} {value : Float}
    (lexed : lex keywords (w ++ cs) = .token kind w value) (nonempty : w ≠ [])
    (h : Spaced keywords cs ds) : Spaced keywords (w ++ cs) (w ++ ds)
  | rejected {x : Char} {cs ds : List Char} {cause : Cause}
    (lexed : lex keywords (x :: cs) = .bad cause) (hx : isBlank x = false)
    (h : Spaced keywords cs ds) : Spaced keywords (x :: cs) (x :: ds)

theorem Spaced.append_inserted {blanks : List Char} (hblanks : ∀ x ∈ blanks, isBlank x)
    (h : Spaced keywords cs ds) : Spaced keywords cs (blanks ++ ds) := by
  induction blanks with
  | nil => exact h
  | cons x blanks ih =>
    rw [List.forall_mem_cons] at hblanks
    exact .inserted hblanks.1 (ih hblanks.2)

theorem Spaced.append_blanks {blanks : List Char} (hblanks : ∀ x ∈ blanks, isBlank x)
    (h : Spaced keywords cs ds) : Spaced keywords (blanks ++ cs) (blanks ++ ds) := by
  induction blanks with
  | nil => exact h
  | cons x blanks ih =>
    rw [List.forall_mem_cons] at hblanks
    exact .blank hblanks.1 (ih hblanks.2)

/-- In front of its first blank the spaced text has nothing new. -/
theorem Spaced.takeWhile_prefix (h : Spaced keywords cs ds) :
    ds.takeWhile (!isBlank ·) <+: cs := by
  induction h with
  | nil => exact List.nil_prefix
  | blank hx => simp [hx]
  | inserted hx => simp [hx]
  | token lexed nonempty _ ih =>
    rw [List.takeWhile_append_of_pos (by simpa using not_isBlank_of_lex lexed nonempty)]
    exact (List.prefix_append_right_inj _).2 ih
  | rejected lexed hx _ ih =>
    rw [List.takeWhile_cons_of_pos (by simpa using hx)]
    exact List.cons_prefix_cons.2 ⟨rfl, ih⟩

theorem behindToken_cons {x : Char} (hx : isBlank x) (cs : List Char) :
    behindToken keywords (x :: cs) = behindToken keywords cs := by
  rw [behindToken, behindToken, List.dropWhile_cons_of_pos hx]

/-- A text that begins with a token or a rejected character. -/
theorem behindToken_of_token (h : lex keywords (w ++ cs) = .token kind w value) (hne : w ≠ []) :
    (w ++ cs).dropWhile isBlank = w ++ cs ∧ behindToken keywords (w ++ cs) = cs := by
  obtain ⟨x, after, rfl⟩ := List.exists_cons_of_ne_nil hne
  have hx := not_isBlank_of_lex h hne x List.mem_cons_self
  have hdrop : (x :: after ++ cs).dropWhile isBlank = x :: after ++ cs :=
    List.dropWhile_cons_of_neg (by simp [hx])
  rw [behindToken, hdrop, h]
  exact ⟨rfl, List.drop_left⟩

theorem behindToken_of_bad {x : Char} {cause : Cause} (h : lex keywords (x :: cs) = .bad cause)
    (hx : isBlank x = false) :
    (x :: cs).dropWhile isBlank = x :: cs ∧ behindToken keywords (x :: cs) = cs := by
  have hdrop : (x :: cs).dropWhile isBlank = x :: cs :=
    List.dropWhile_cons_of_neg (by simp [hx])
  rw [behindToken, hdrop, h]
  exact ⟨rfl, rfl⟩

/-- Behind the blanks both texts begin with the same token or rejected character, and
    what is behind it is spaced in the same sense. -/
theorem Spaced.step (h : Spaced keywords cs ds) :
    lex keywords (ds.dropWhile isBlank) = lex keywords (cs.dropWhile isBlank) ∧
      Spaced keywords (behindToken keywords cs) (behindToken keywords ds) := by
  induction h with
  | nil => exact ⟨rfl, .nil⟩
  | blank hx _ ih =>
    rwa [List.dropWhile_cons_of_pos hx, List.dropWhile_cons_of_pos hx, behindToken_cons hx,
      behindToken_cons hx]
  | inserted hx _ ih => rwa [List.dropWhile_cons_of_pos hx, behindToken_cons hx]
  | @token w cs ds kind value lexed nonempty h ih =>
    have hspaced : Spaced keywords (w ++ cs) (w ++ ds) := .token lexed nonempty h
    have hlex := lex_token_of_takeWhile lexed nonempty (List.prefix_append w ds)
      hspaced.takeWhile_prefix
    obtain ⟨hcs, hcs'⟩ := behindToken_of_token lexed nonempty
    obtain ⟨hds, hds'⟩ := behindToken_of_token hlex nonempty
    rw [hcs, hds, hcs', hds', hlex, lexed]
    exact ⟨rfl, h⟩
  | @rejected x cs ds cause lexed hx h ih =>
    have hspaced : Spaced keywords (x :: cs) (x :: ds) := .rejected lexed hx h
    have hlex := lex_bad_of_takeWhile lexed hspaced.takeWhile_prefix
    obtain ⟨hcs, hcs'⟩ := behindToken_of_bad lexed hx
    obtain ⟨hds, hds'⟩ := behindToken_of_bad hlex hx
    rw [hcs, hds, hcs', hds', hlex, lexed]
    exact ⟨rfl, h⟩

end Token

/-! ## Scanners on spaced texts -/

/-- The calls gave the same, but for its place. -/
def Agree : Except Rejection Token → Except Rejection Token → Prop
  | .ok t, .ok u => t.Alike u
  | .error r, .error q => r.cause = q.cause
  | _, _ => False

namespace Scanner

/-- The second scanner has blanks more to read between the tokens. -/
structure Spaced (keywords : Keywords) (s₁ s₂ : Scanner) : Prop where
  left : s₁.keywords = keywords
  right : s₂.keywords = keywords
  rest : Token.Spaced keywords s₁.cursor.rest s₂.cursor.rest
  slot : Option.Rel Token.Alike s₁.slot s₂.slot
  last : Option.Rel Token.Alike s₁.last s₂.last

variable {keywords : Keywords} {s₁ s₂ : Scanner}

/-- With empty slots, the same is found in both texts. -/
theorem Spaced.get_of_unread (h : s₁.Spaced keywords s₂) (hslot₁ : s₁.slot = none)
    (hslot₂ : s₂.slot = none) : Agree s₁.get.1 s₂.get.1 ∧ s₁.get.2.Spaced keywords s₂.get.2 := by
  obtain ⟨hlex, hbehind⟩ := h.rest.step
  obtain ⟨-, hkeywords₁, hrest₁⟩ := get_rest hslot₁
  obtain ⟨-, hkeywords₂, hrest₂⟩ := get_rest hslot₂
  have hleft := hkeywords₁.trans h.left
  have hright := hkeywords₂.trans h.right
  rw [h.left] at hrest₁
  rw [h.right] at hrest₂
  rw [← hrest₁, ← hrest₂] at hbehind
  clear hkeywords₁ hkeywords₂ hrest₁ hrest₂
  have h₁ := s₁.gets
  have h₂ := s₂.gets
  generalize s₁.get = result₁ at *
  generalize s₂.get = result₂ at *
  cases h₁ with
  | held slot => rw [hslot₁] at slot; cases slot
  | @token _ _ _ t _ _ lexed₁ token₁ =>
    rw [h.left, ← hlex] at lexed₁
    cases h₂ with
    | held slot => rw [hslot₂] at slot; cases slot
    | @token _ _ _ u _ _ lexed₂ token₂ =>
      rw [h.right, lexed₁] at lexed₂
      cases lexed₂
      have halike : t.Alike u :=
        ⟨by rw [token₁, token₂], by rw [token₁, token₂], by rw [token₁, token₂]⟩
      exact ⟨halike, hleft, hright, hbehind, h.slot, .some halike⟩
    | bad _ lexed₂ => rw [h.right, lexed₁] at lexed₂; cases lexed₂
  | bad _ lexed₁ =>
    rw [h.left, ← hlex] at lexed₁
    cases h₂ with
    | held slot => rw [hslot₂] at slot; cases slot
    | token _ lexed₂ => rw [h.right, lexed₁] at lexed₂; cases lexed₂
    | bad _ lexed₂ =>
      rw [h.right, lexed₁] at lexed₂
      cases lexed₂
      exact ⟨rfl, hleft, hright, hbehind, h.slot, .none⟩

theorem Spaced.get (h : s₁.Spaced keywords s₂) :
    Agree s₁.get.1 s₂.get.1 ∧ s₁.get.2.Spaced keywords s₂.get.2 := by
  have hslot := h.slot
  cases h₁ : s₁.slot <;> cases h₂ : s₂.slot <;> rw [h₁, h₂] at hslot
  case none.none => exact h.get_of_unread h₁ h₂
  case some.some t u =>
    obtain ⟨halike⟩ := hslot
    rw [get_of_slot h₁, get_of_slot h₂]
    exact ⟨halike, h.left, h.right, h.rest, .none, .some halike⟩
  all_goals cases hslot

theorem Spaced.given (h : s₁.Spaced keywords s₂) (n : Nat) :
    Agree (s₁.given n) (s₂.given n) := by
  induction n generalizing s₁ s₂ with
  | zero => exact h.get.1
  | succ n ih => exact ih h.get.2

theorem spaced_ofText {cs ds : List Char} (h : Token.Spaced keywords cs ds) :
    (ofText keywords cs).Spaced keywords (ofText keywords ds) := by
  refine ⟨rfl, rfl, ?_, .none, .none⟩
  show Token.Spaced keywords (Text.Cursor.ofText cs).rest (Text.Cursor.ofText ds).rest
  rwa [Text.Cursor.rest_ofText, Text.Cursor.rest_ofText]

end Scanner

/-! ## Blanks around pieces -/

namespace Piece

variable {text : List Char}

/-- The pieces, with the blanks `before n` in front of the lexeme of number `n`, behind
    the blanks that are there already, and with `after n` behind it. -/
def spread : (before after : Nat → List Char) → List (Piece text) → List Char
  | _, _, [] => []
  | before, after, p :: ps =>
    p.blanks ++ (before 0 ++ (p.lexeme ++ (after 0 ++
      spread (fun n => before (n + 1)) (fun n => after (n + 1)) ps)))

end Piece

namespace Scanner

variable {s : Scanner} {text : List Char}

/-- The lexeme of a piece that a call took is a token or a rejected character. -/
theorem spaced_piece (hslot : s.slot = none) {p : Piece text} (hgiven : s.get.1 = p.result)
    {behind : List Char} (hrest : s.cursor.rest = p.blanks ++ (p.lexeme ++ behind)) :
    s.get.2.cursor.rest = behind ∧
      ∀ ds, Token.Spaced s.keywords behind ds →
        Token.Spaced s.keywords (p.lexeme ++ behind) (p.lexeme ++ ds) := by
  have hdrop (hlexeme : ∀ x ∈ p.lexeme, isBlank x = false) :
      s.cursor.rest.dropWhile isBlank = p.lexeme ++ behind := by
    obtain ⟨x, more, hcons⟩ := List.exists_cons_of_ne_nil p.lexeme_ne_nil
    rw [hrest, List.dropWhile_append_of_pos p.isBlank_of_mem]
    rw [hcons] at hlexeme ⊢
    exact List.dropWhile_cons_of_neg (by simp [hlexeme x List.mem_cons_self])
  have hreports := p.reports
  have hgets := s.gets
  rw [← hgiven] at hreports
  generalize s.get = result at hgets hreports ⊢
  cases hgets with
  | held slot => rw [hslot] at slot; cases slot
  | @token kind lexeme value t cursor _ lexed token_eq _ rest_eq =>
    have hlexeme : lexeme = p.lexeme := by
      rw [← hreports.1, token_eq, String.toList_ofList]
    subst hlexeme
    have hbehind := hdrop (Token.not_isBlank_of_lex lexed p.lexeme_ne_nil)
    rw [hbehind] at lexed rest_eq
    exact ⟨rest_eq.trans List.drop_left, fun _ h => .token lexed p.lexeme_ne_nil h⟩
  | @bad cause place cursor _ lexed _ rest_eq =>
    obtain ⟨first, more, hfirst, -, hcause⟩ := Token.lex_eq_bad lexed
    obtain ⟨-, x, hx, hcause'⟩ := hreports
    -- both say which character was rejected
    obtain rfl : first = x := by
      obtain rfl | rfl := hcause <;> obtain h | h := hcause' <;> cases h <;> rfl
    have hblank : isBlank first = false := by
      have hhead := List.head?_dropWhile_not isBlank s.cursor.rest
      rw [hfirst] at hhead
      simpa using hhead
    have hbehind := hdrop (by simpa [hx] using hblank)
    rw [hbehind, hx, List.singleton_append] at lexed rest_eq
    rw [hx]
    exact ⟨rest_eq, fun _ h => .rejected lexed hblank h⟩

theorem spaced_spread (hslot : s.slot = none) (before after : Nat → List Char)
    (hbefore : ∀ n, ∀ x ∈ before n, isBlank x) (hafter : ∀ n, ∀ x ∈ after n, isBlank x)
    {ps : List (Piece text)} (hgiven : ∀ n (hn : n < ps.length), s.given n = ps[n].result)
    {blanks last : List Char} (hblanks : ∀ x ∈ blanks, isBlank x) (hlast : ∀ x ∈ last, isBlank x)
    (hrest : s.cursor.rest = ps.flatMap Piece.chars ++ blanks) :
    Token.Spaced s.keywords s.cursor.rest (Piece.spread before after ps ++ (blanks ++ last)) := by
  induction ps generalizing s before after with
  | nil =>
    rw [hrest]
    have hend : Token.Spaced s.keywords [] last := by
      simpa using Token.Spaced.append_inserted hlast .nil
    simpa [Piece.spread] using Token.Spaced.append_blanks hblanks hend
  | cons p ps ih =>
    have hbehind : s.cursor.rest =
        p.blanks ++ (p.lexeme ++ (ps.flatMap Piece.chars ++ blanks)) := by
      rw [hrest, List.flatMap_cons, Piece.chars]
      simp only [List.append_assoc]
    obtain ⟨hrest', hspaced⟩ := spaced_piece hslot (hgiven 0 (Nat.zero_lt_succ _)) hbehind
    obtain ⟨hslot', hkeywords, -⟩ := get_rest hslot
    have hnext := ih hslot' (fun n => before (n + 1)) (fun n => after (n + 1))
      (fun n => hbefore (n + 1)) (fun n => hafter (n + 1))
      (fun n hn => hgiven (n + 1) (Nat.succ_lt_succ hn)) hrest'
    rw [hkeywords, hrest'] at hnext
    rw [hbehind, Piece.spread]
    simp only [List.append_assoc]
    exact .append_blanks p.isBlank_of_mem
      (.append_inserted (hbefore 0) (hspaced _ (.append_inserted (hafter 0) hnext)))

end Scanner

/-! ## Tokens with single blanks between them -/

namespace Token

/-- The token was scanned somewhere, and is not the end of the text. -/
def Scanned (keywords : Keywords) (t : Token) : Prop :=
  t.isEnd = false ∧ ∃ c : Text.Cursor, (scan keywords c).1 = .ok t

/-- The lexemes of the tokens, with single blanks between them. -/
def joined (ts : List Token) : List Char := [' '].intercalate (ts.map (·.lexeme.toList))

variable {keywords : Keywords} {t : Token} {ts : List Token}

theorem Scanned.lexed (h : Scanned keywords t) :
    t.lexeme.toList ≠ [] ∧ ∃ cs, lex keywords cs = .token t.kind t.lexeme.toList t.value := by
  obtain ⟨hend, c, hscan⟩ := h
  rw [scan_eq] at hscan
  cases hlex : lex keywords (c.rest.dropWhile isBlank) with
  | bad cause => rw [hlex] at hscan; cases hscan
  | token kind lexeme value =>
    rw [hlex] at hscan
    cases hscan
    rw [String.toList_ofList]
    refine ⟨?_, _, hlex⟩
    rintro rfl
    -- only the end of the text has no characters
    obtain ⟨-, rfl, -⟩ := lex_eq_token_nil.1 hlex
    cases hend

/-- In front of a blank and at the end of a text the token is scanned again. -/
theorem Scanned.lex_append (h : Scanned keywords t) {z : List Char}
    (hz : z.takeWhile (!isBlank ·) = []) :
    lex keywords (t.lexeme.toList ++ z) = .token t.kind t.lexeme.toList t.value := by
  obtain ⟨hne, cs, hlex⟩ := h.lexed
  refine lex_token_of_takeWhile hlex hne (List.prefix_append _ z) ?_
  rw [List.takeWhile_append_of_pos (by simpa using not_isBlank_of_lex hlex hne), hz,
    List.append_nil]
  exact prefix_of_lex hlex

/-- Behind the first lexeme stands a blank, or nothing. -/
theorem exists_joined_cons (t : Token) (ts : List Token) :
    ∃ z, joined (t :: ts) = t.lexeme.toList ++ z ∧ z.takeWhile (!isBlank ·) = [] ∧
      z.dropWhile isBlank = (joined ts).dropWhile isBlank := by
  have hblank : isBlank ' ' = true := by decide
  cases ts with
  | nil => exact ⟨[], by simp [joined], rfl, rfl⟩
  | cons u us =>
    refine ⟨' ' :: joined (u :: us), by simp [joined], by simp [hblank], ?_⟩
    rw [List.dropWhile_cons_of_pos hblank]

theorem behindToken_joined (h : Scanned keywords t) (ts : List Token) :
    lex keywords ((joined (t :: ts)).dropWhile isBlank) =
        .token t.kind t.lexeme.toList t.value ∧
      (behindToken keywords (joined (t :: ts))).dropWhile isBlank =
        (joined ts).dropWhile isBlank := by
  obtain ⟨z, hjoined, hz, hrest⟩ := exists_joined_cons t ts
  have hlex := h.lex_append hz
  obtain ⟨hdrop, hbehind⟩ := behindToken_of_token hlex h.lexed.1
  rw [hjoined, hdrop, hbehind]
  exact ⟨hlex, hrest⟩

end Token

namespace Scanner

variable {s : Scanner} {ts : List Token}

theorem get_agree_token (hslot : s.slot = none) {t : Token} {w : List Char}
    (hlex : Token.lex s.keywords (s.cursor.rest.dropWhile isBlank) = .token t.kind w t.value)
    (hw : t.lexeme.toList = w) : Agree (.ok t) s.get.1 := by
  have hgets := s.gets
  generalize s.get = result at hgets ⊢
  cases hgets with
  | held slot => rw [hslot] at slot; cases slot
  | bad _ lexed => rw [hlex] at lexed; cases lexed
  | token _ lexed token_eq =>
    rw [hlex] at lexed
    cases lexed
    subst token_eq
    exact ⟨rfl, by rw [← hw, String.ofList_toList], rfl⟩

/-- Where the lexemes of some tokens come next, with blanks between them, the calls
    give these tokens, and then the end of the text. -/
theorem given_joined (hslot : s.slot = none) (hts : ∀ t ∈ ts, Token.Scanned s.keywords t)
    (hrest : s.cursor.rest.dropWhile isBlank = (Token.joined ts).dropWhile isBlank) (n : Nat) :
    Agree (.ok (ts[n]?.getD .endOfText)) (s.given n) := by
  induction n generalizing s ts with
  | zero =>
    cases ts with
    | nil => exact get_agree_token hslot (by rw [hrest]; rfl) rfl
    | cons t ts =>
      have hlex := (Token.behindToken_joined (hts t List.mem_cons_self) ts).1
      exact get_agree_token hslot (hrest ▸ hlex) rfl
  | succ n ih =>
    obtain ⟨hslot', hkeywords, hrest'⟩ := get_rest hslot
    have hbehind : Token.behindToken s.keywords s.cursor.rest =
        Token.behindToken s.keywords (Token.joined ts) := by
      rw [Token.behindToken, Token.behindToken, hrest]
    rw [hbehind] at hrest'
    rw [given_succ]
    cases ts with
    | nil =>
      have hnil : s.get.2.cursor.rest.dropWhile isBlank = (Token.joined []).dropWhile isBlank := by
        rw [hrest']
        rfl
      exact ih hslot' (List.forall_mem_nil _) hnil
    | cons t ts =>
      rw [List.getElem?_cons_succ]
      refine ih hslot' (fun u hu => hkeywords ▸ hts u (List.mem_cons_of_mem t hu)) ?_
      rw [hrest']
      exact (Token.behindToken_joined (hts t List.mem_cons_self) ts).2

end Scanner

end Calculator
