import Mathlib.Data.List.TakeWhile
import Calculator.Dialect
import Calculator.Proofs.Text.Longer
import Calculator.Proofs.Token.Lexemes
import Calculator.Proofs.Token.Words

/-! # Discarding input through a token

    `Scanner.ignore` looks for the next symbol of a kind among the characters and
    not among the tokens. Calling for one token after the other up to the one of
    this kind comes to the same (`Scanner.ignore_discards_tokens`), since a symbol is
    a token by itself wherever it stands, with one exception: the sign of an exponent
    is part of a number. A `+` or `-` that is looked for is found there too
    (`Scanner.ignore_stops_at_sign`).

    Both ways end at the same place of the same line, so all later calls agree on
    columns and lines as well.
-/

namespace Calculator

open Text (Cursor isBlank)

/-! ## Passing over characters -/

namespace Text.Cursor

variable {c : Cursor} {stop : Char → Bool} {front behind : List Char}

theorem pass_add (m n : Nat) (c : Cursor) : c.pass (m + n) = (c.pass m).pass n := by
  induction m generalizing c with
  | zero => rw [Nat.zero_add]; rfl
  | succ m ih => rw [Nat.succ_add]; exact ih (c.refill.advance 1)

theorem refill_refill (c : Cursor) : c.refill.refill = c.refill := by
  by_cases hahead : c.refill.ahead = []
  · exact refill_of_ended (ended_refill (ahead_refill_eq_nil.1 hahead))
  · exact refill_of_ahead hahead

/-- On the line nothing is read in between. -/
theorem pass_eq_advance {n : Nat} (hpos : 0 < n) (hn : n ≤ c.refill.ahead.length) :
    c.pass n = c.refill.advance n := by
  obtain ⟨k, rfl⟩ := Nat.exists_eq_succ_of_ne_zero (Nat.ne_of_gt hpos)
  have hlength : (c.refill.advance 1).ahead.length = c.refill.ahead.length - 1 := by
    rw [ahead_advance, List.length_drop]
  rw [pass, pass_of_le (by omega)]
  show ({ c.refill with column := c.refill.column + 1 + k } : Cursor) = _
  rw [Nat.add_right_comm, Nat.add_assoc]
  rfl

theorem refill_pass {n : Nat} (hn : n ≤ c.refill.ahead.length) :
    (c.pass n).refill = (c.refill.advance n).refill := by
  obtain rfl | hpos := Nat.eq_zero_or_pos n
  · exact (refill_refill c).symm
  · rw [pass_eq_advance hpos hn]

theorem length_rest_pass_lt (hrest : c.rest = front ++ behind) (hne : front ≠ []) :
    (c.pass front.length).rest.length < c.rest.length := by
  have hpos := List.length_pos_iff.2 hne
  rw [rest_pass, hrest, List.drop_left, List.length_append]
  omega

/-- The character that is looked for stands behind `front`. -/
theorem skipThrough_of_split {x : Char} (hrest : c.rest = front ++ x :: behind)
    (hfront : ∀ y ∈ front, stop y = false) (hx : stop x = true) :
    (c.skipThrough stop).2 = c.pass (front.length + 1) := by
  have htake : c.rest.takeWhile (!stop ·) = front := by
    rw [hrest, List.takeWhile_append_of_pos (by simpa using hfront)]
    simp [hx]
  have hlt : front.length < c.rest.length := by simp [hrest]
  unfold skipThrough
  rw [htake]
  dsimp only
  rw [if_pos hlt]

/-- The character that is looked for does not occur. -/
theorem skipThrough_of_none (hrest : ∀ y ∈ c.rest, stop y = false) :
    (c.skipThrough stop).2 = (c.pass c.rest.length).refill := by
  have htake : c.rest.takeWhile (!stop ·) = c.rest :=
    List.takeWhile_eq_self_iff.2 (by simpa using hrest)
  unfold skipThrough
  rw [htake]
  dsimp only
  rw [if_neg (Nat.lt_irrefl _)]

/-- Characters that are not looked for may be passed over before. -/
theorem skipThrough_pass (hrest : c.rest = front ++ behind)
    (hfront : ∀ y ∈ front, stop y = false) :
    ((c.pass front.length).skipThrough stop).2 = (c.skipThrough stop).2 := by
  have hbehind : (c.pass front.length).rest = behind := by rw [rest_pass, hrest, List.drop_left]
  have htake : (c.rest.takeWhile (!stop ·)).length =
      front.length + (behind.takeWhile (!stop ·)).length := by
    rw [hrest, List.takeWhile_append_of_pos (by simpa using hfront), List.length_append]
  have hlength : c.rest.length = front.length + behind.length := by
    rw [hrest, List.length_append]
  unfold skipThrough
  rw [hbehind, htake, hlength]
  dsimp only
  split
  · rw [if_pos (by omega), Nat.add_assoc, pass_add front.length]
  · rw [if_neg (by omega), pass_add front.length]

end Text.Cursor

namespace Token

variable {c : Cursor}

theorem skipBlanks_eq_pass (c : Cursor) :
    skipBlanks c = (c.pass (c.rest.takeWhile isBlank).length).refill := by
  have hle : (c.refill.ahead.takeWhile isBlank).length ≤ c.refill.ahead.length :=
    (List.takeWhile_sublist _).length_le
  -- as many blanks are passed over as stand in front of the text
  have hlength : (c.refill.ahead.takeWhile isBlank).length = (c.rest.takeWhile isBlank).length := by
    have hrest := rest_skipBlanks c
    rw [rest_skipBlanks_eq, ← Text.drop_length_takeWhile] at hrest
    have hcount := congrArg List.length hrest
    have hline := c.refill.length_ahead_le
    have htext := (List.takeWhile_sublist (l := c.rest) isBlank).length_le
    rw [Cursor.rest_refill] at hline
    rw [List.length_drop, List.length_drop] at hcount
    omega
  rw [skipBlanks, ← hlength, Cursor.refill_pass hle]

/-- A lexeme behind the blanks is passed over like other characters. -/
theorem advance_skipBlanks {lexeme : List Char} (hne : lexeme ≠ [])
    (h : lexeme <+: (skipBlanks c).ahead) :
    (skipBlanks c).advance lexeme.length =
      c.pass (c.rest.takeWhile isBlank ++ lexeme).length := by
  rw [skipBlanks_eq_pass] at h ⊢
  rw [List.length_append, Cursor.pass_add,
    Cursor.pass_eq_advance (List.length_pos_iff.2 hne) h.length_le]

/-- A rejected character behind the blanks stands on the same line as they do. -/
theorem prefix_of_lex_bad {keywords : Keywords} {x : Char} {behind : List Char} {cause : Cause}
    (hrest : c.rest.dropWhile isBlank = x :: behind)
    (h : lex keywords (x :: behind) = .bad cause) : [x] <+: (skipBlanks c).ahead := by
  rw [← hrest] at h
  obtain ⟨y, after, hahead, -⟩ := lex_eq_bad ((lex_ahead_skipBlanks keywords c).trans h)
  have hskip := rest_skipBlanks_eq c
  rw [Cursor.rest, hahead, hrest, List.cons_append, List.cons.injEq] at hskip
  rw [hahead, hskip.1]
  exact List.prefix_append [x] after

end Token

/-! ## Calls up to a token -/

namespace Scanner

open Token (Kind Avoids lex)

/-- What a call passes over when the slot is empty: blanks, and a token or a character
    that begins none behind them. -/
inductive Passes (s : Scanner) : Except Rejection Token × Scanner → Prop where
  | ended {t : Token} (blanks : ∀ x ∈ s.cursor.rest, isBlank x) (isEnd : t.isEnd) :
    Passes s (.ok t,
      { s with cursor := (s.cursor.pass s.cursor.rest.length).refill, last := some t })
  | token {blanks lexeme behind : List Char} {t : Token} (isBlank : ∀ x ∈ blanks, isBlank x)
    (rest_eq : s.cursor.rest = blanks ++ lexeme ++ behind) (nonempty : lexeme ≠ [])
    (lexed : lex s.keywords (lexeme ++ behind) = .token t.kind lexeme t.value)
    (lexeme_eq : t.lexeme = String.ofList lexeme) :
    Passes s (.ok t,
      { s with cursor := s.cursor.pass (blanks ++ lexeme).length, last := some t })
  | bad {blanks behind : List Char} {x : Char} {r : Rejection} (isBlank : ∀ x ∈ blanks, isBlank x)
    (rest_eq : s.cursor.rest = blanks ++ [x] ++ behind)
    (lexed : lex s.keywords (x :: behind) = .bad r.cause) :
    Passes s (.error r,
      { s with cursor := s.cursor.pass (blanks ++ [x]).length, last := none })

variable {s : Scanner} {kind : Kind}

theorem passes (hslot : s.slot = none) : s.Passes s.get := by
  have hblanks : ∀ x ∈ s.cursor.rest.takeWhile isBlank, isBlank x :=
    List.all_eq_true.1 List.all_takeWhile
  have hsplit := List.takeWhile_append_dropWhile (p := isBlank) (l := s.cursor.rest)
  have hgets := s.gets
  generalize s.get = result at hgets ⊢
  cases hgets with
  | held slot => rw [hslot] at slot; cases slot
  | @token kind lexeme value t cursor slot lexed token_eq cursor_eq rest_eq =>
    obtain ⟨behind, hbehind⟩ := Token.prefix_of_lex lexed
    have hrest : s.cursor.rest = s.cursor.rest.takeWhile isBlank ++ lexeme ++ behind := by
      rw [List.append_assoc, hbehind, hsplit]
    have hahead : lexeme <+: (Token.skipBlanks s.cursor).ahead :=
      Token.prefix_of_lex ((Token.lex_ahead_skipBlanks _ _).trans lexed)
    by_cases hlexeme : lexeme = []
    · subst hlexeme
      obtain ⟨hnil, rfl, rfl⟩ := Token.lex_eq_token_nil.1 lexed
      rw [hnil, List.append_nil] at hsplit
      have hcursor : cursor = (s.cursor.pass s.cursor.rest.length).refill := by
        rw [cursor_eq, Token.skipBlanks_eq_pass, hsplit]
        rfl
      rw [hsplit] at hblanks
      rw [hcursor]
      exact .ended hblanks (by rw [token_eq]; rfl)
    · rw [cursor_eq, Token.advance_skipBlanks hlexeme hahead]
      exact .token hblanks hrest hlexeme (by rw [hbehind, lexed, token_eq]) (by rw [token_eq])
  | @bad cause place cursor slot lexed cursor_eq rest_eq =>
    obtain ⟨x, behind, hbehind, -⟩ := Token.lex_eq_bad lexed
    have hrest : s.cursor.rest = s.cursor.rest.takeWhile isBlank ++ [x] ++ behind := by
      rw [List.append_assoc, List.singleton_append, ← hbehind, hsplit]
    rw [hbehind] at lexed
    have hahead := Token.prefix_of_lex_bad hbehind lexed
    have hcursor : cursor = s.cursor.pass (s.cursor.rest.takeWhile isBlank ++ [x]).length :=
      cursor_eq.trans (Token.advance_skipBlanks (List.cons_ne_nil x []) hahead)
    rw [hcursor]
    exact .bad hblanks hrest lexed

/-- Call number `n` gives a token of the kind or the end of the input. -/
def StopsAt (kind : Kind) (s : Scanner) (n : Nat) : Prop :=
  ∃ t, s.given n = .ok t ∧
    (t.kind = kind ∨ t.isEnd ∧ (s.afterGets (n + 1)).cursor.rest = [])

/-- The calls up to the first token of the kind, or up to the end of the input, end at
    the place of the cursor `c`. -/
def EndsAt (kind : Kind) (s : Scanner) (c : Cursor) : Prop :=
  ∃ n, (∀ i < n, ¬ s.StopsAt kind i) ∧ s.StopsAt kind n ∧ (s.afterGets (n + 1)).cursor = c

/-- What calls give from now on is what they give after the calls up to the first
    token of the kind, or up to the end of the input. -/
def DiscardsThrough (kind : Kind) (s s' : Scanner) : Prop :=
  ∃ n, (∀ i < n, ¬ s.StopsAt kind i) ∧ s.StopsAt kind n ∧
    ∀ k, s'.given k = (s.afterGets (n + 1)).given k

/-- No number in front of the first token of the kind has a symbol of this kind in it. -/
def Unhidden (kind : Kind) (s : Scanner) : Prop :=
  ∀ n t, (∀ i < n, ¬ s.StopsAt kind i) → s.given n = .ok t → t.kind = .number →
    ∀ x ∈ t.lexeme.toList, Kind.ofSymbol? x ≠ some kind

theorem stopsAt_zero {t : Token} (h : s.get.1 = .ok t) :
    s.StopsAt kind 0 ↔ t.kind = kind ∨ t.isEnd ∧ s.get.2.cursor.rest = [] := by
  constructor
  · rintro ⟨u, hu, hstop⟩
    rw [given_zero, h] at hu
    cases hu
    exact hstop
  · exact fun hstop => ⟨t, h, hstop⟩

theorem lt_succ_of_stopsAt (h : ¬ s.StopsAt kind 0) {n : Nat}
    (hn : ∀ i < n, ¬ s.get.2.StopsAt kind i) : ∀ i < n + 1, ¬ s.StopsAt kind i := by
  intro i hi
  cases i with
  | zero => exact h
  | succ i => exact hn i (Nat.lt_of_succ_lt_succ hi)

theorem Unhidden.of_get (h : s.Unhidden kind) (hstop : ¬ s.StopsAt kind 0) :
    s.get.2.Unhidden kind := fun n t hn hgiven =>
  h (n + 1) t (lt_succ_of_stopsAt hstop hn) hgiven

/-- Characters that are not looked for are discarded in both ways. -/
theorem EndsAt.of_get (hstop : ¬ s.StopsAt kind 0) {front behind : List Char}
    (hrest : s.cursor.rest = front ++ behind)
    (hfront : ∀ x ∈ front, Kind.ofSymbol? x ≠ some kind)
    (hcursor : s.get.2.cursor = s.cursor.pass front.length)
    (h : s.get.2.EndsAt kind (s.get.2.cursor.skipThrough (Kind.ofSymbol? · = some kind)).2) :
    s.EndsAt kind (s.cursor.skipThrough (Kind.ofSymbol? · = some kind)).2 := by
  obtain ⟨n, hn, hat, hend⟩ := h
  refine ⟨n + 1, lt_succ_of_stopsAt hstop hn, hat, ?_⟩
  rw [hcursor, Cursor.skipThrough_pass hrest (by simpa using hfront)] at hend
  exact hend

/-- The calls up to the first token of the kind end where the character that is looked
    for was found. -/
theorem endsAt_skipThrough (hslot : s.slot = none) {y : Char} (hy : Kind.ofSymbol? y = some kind)
    (hk : Avoids s.keywords kind) (hsigns : kind = .plus ∨ kind = .minus → s.Unhidden kind) :
    s.EndsAt kind (s.cursor.skipThrough (Kind.ofSymbol? · = some kind)).2 := by
  have hblank {blanks : List Char} (h : ∀ x ∈ blanks, isBlank x) :
      ∀ x ∈ blanks, Kind.ofSymbol? x ≠ some kind :=
    fun x hx => Token.not_symbol_of_isBlank (h x hx)
  -- Every call but the last one leaves less to read.
  induction hlength : s.cursor.rest.length using Nat.strongRecOn generalizing s with
  | ind length ih =>
    subst hlength
    obtain ⟨hslot', hkeywords, -⟩ := get_rest hslot
    have hnext (hstop : ¬ s.StopsAt kind 0) (hlt : s.get.2.cursor.rest.length < _) :=
      ih _ hlt hslot' (hkeywords ▸ hk) (fun hkind => (hsigns hkind).of_get hstop) rfl
    have hpasses := passes hslot
    have hstart := @stopsAt_zero s kind
    have hgo := @EndsAt.of_get s kind
    have hone : s.afterGets (0 + 1) = s.get.2 := rfl
    have hgiven := s.given_zero
    generalize s.get = result at *
    cases hpasses with
    | ended blanks isEnd =>
      have hrest : (s.cursor.pass s.cursor.rest.length).refill.rest = [] := by
        rw [Cursor.rest_refill, Cursor.rest_pass, List.drop_length]
      refine ⟨0, nofun, (hstart rfl).2 (.inr ⟨isEnd, hrest⟩), ?_⟩
      rw [hone, Cursor.skipThrough_of_none (by simpa using hblank blanks)]
    | @token blanks lexeme behind t hblanks rest_eq nonempty lexed lexeme_eq =>
      by_cases hkind : t.kind = kind
      · rw [hkind] at lexed
        obtain ⟨x, hx, rfl⟩ := Token.symbol_of_lex hk hy lexed
        refine ⟨0, nofun, (hstart rfl).2 (.inl hkind), ?_⟩
        rw [List.append_assoc, List.singleton_append] at rest_eq
        rw [hone, Cursor.skipThrough_of_split rest_eq (by simpa using hblank hblanks)
          (by simpa using hx), List.length_append]
        rfl
      · have hstop : ¬ s.StopsAt kind 0 := by
          rw [hstart rfl]
          rintro (hfound | ⟨hend, -⟩)
          · exact hkind hfound
          · exact absurd hend (by simp [Token.isEnd, lexeme_eq, nonempty])
        have hlexeme : ∀ x ∈ lexeme, Kind.ofSymbol? x ≠ some kind := by
          intro x hx hsymbol
          obtain hfound | ⟨hnumber, hsign⟩ := Token.sign_of_mem_lexeme lexed hx hsymbol
          · exact hkind hfound
          · refine hsigns hsign 0 t nofun hgiven hnumber x ?_ hsymbol
            rwa [lexeme_eq, String.toList_ofList]
        exact hgo hstop rest_eq (List.forall_mem_append.2 ⟨hblank hblanks, hlexeme⟩) rfl
          (hnext hstop (Cursor.length_rest_pass_lt rest_eq (by simp [nonempty])))
    | @bad blanks behind x r hblanks rest_eq lexed =>
      have hstop : ¬ s.StopsAt kind 0 := by
        rintro ⟨t, ht, -⟩
        rw [hgiven] at ht
        cases ht
      have hrejected : ∀ y ∈ [x], Kind.ofSymbol? y ≠ some kind :=
        List.forall_mem_singleton.2 (Token.not_symbol_of_lex_bad lexed)
      exact hgo hstop rest_eq (List.forall_mem_append.2 ⟨hblank hblanks, hrejected⟩) rfl
        (hnext hstop (Cursor.length_rest_pass_lt rest_eq (by simp)))

/-! ## Discarding -/

theorem given_congr {s s' : Scanner} (h : s.get = s'.get) (n : Nat) : s.given n = s'.given n := by
  cases n with
  | zero => rw [given_zero, given_zero, h]
  | succ n => rw [given_succ, given_succ, h]

theorem stopsAt_congr {s s' : Scanner} (h : s.get = s'.get) (n : Nat) :
    s.StopsAt kind n ↔ s'.StopsAt kind n := by
  have hafter : s.afterGets (n + 1) = s'.afterGets (n + 1) := by
    rw [afterGets, afterGets, h]
  rw [StopsAt, StopsAt, given_congr h, hafter]

theorem Unhidden.congr {s s' : Scanner} (hs : s.Unhidden kind) (h : s.get = s'.get) :
    s'.Unhidden kind := by
  intro n t hn hgiven
  rw [← given_congr h] at hgiven
  exact hs n t (fun i hi => mt (stopsAt_congr h i).1 (hn i hi)) hgiven

theorem DiscardsThrough.of_get (hstop : ¬ s.StopsAt kind 0) {s' : Scanner}
    (h : s.get.2.DiscardsThrough kind s') : s.DiscardsThrough kind s' := by
  obtain ⟨n, hn, hat, hgiven⟩ := h
  exact ⟨n + 1, lt_succ_of_stopsAt hstop hn, hat, hgiven⟩

/-- With an empty slot, a call depends on the line that is read and the place in it. -/
theorem get_congr {s s' : Scanner} (hslot : s.slot = none) (hslot' : s'.slot = none)
    (hkeywords : s.keywords = s'.keywords) (hcursor : s.cursor.refill = s'.cursor.refill) :
    s.get = s'.get := by
  have hskip : Token.skipBlanks s.cursor = Token.skipBlanks s'.cursor := by
    rw [Token.skipBlanks, Token.skipBlanks, hcursor]
  unfold get
  rw [hslot, hslot', Token.scan, Token.scan, hskip, hkeywords]

/-- From a place in the text, skipping characters is the same as calling for tokens. -/
theorem discardsThrough_unread (hslot : s.slot = none) {y : Char}
    (hy : Kind.ofSymbol? y = some kind) (hk : Avoids s.keywords kind)
    (hsigns : kind = .plus ∨ kind = .minus → s.Unhidden kind) {s' : Scanner}
    (hslot' : s'.slot = none) (hkeywords : s'.keywords = s.keywords)
    (hcursor : s'.cursor = (s.cursor.skipThrough (Kind.ofSymbol? · = some kind)).2) :
    s.DiscardsThrough kind s' := by
  obtain ⟨n, hn, hat, hend⟩ := endsAt_skipThrough hslot hy hk hsigns
  obtain ⟨hslot'', hkeywords', -⟩ := afterGets_rest hslot (n + 1)
  refine ⟨n, hn, hat, given_congr (get_congr hslot' hslot'' ?_ ?_)⟩
  · rw [hkeywords, hkeywords']
  · rw [hcursor, hend]

/-- For a kind with symbols, which no word means, discarding input through the next
    token of that kind is calling for tokens, and dropping them and what is rejected,
    until one of this kind or the end of the input was given. It begins with the token
    in the slot, if there is one; if there is none, the token that was read last must
    not be of the kind. A sign in the exponent of a number must not be in the way. -/
theorem ignore_discards_tokens (s : Scanner) (kind : Kind)
    (hsymbol : ∃ y, Kind.ofSymbol? y = some kind) (hk : Avoids s.keywords kind)
    (hlast : s.slot = none → ∀ t, s.last = some t → t.kind ≠ kind)
    (hsigns : kind = .plus ∨ kind = .minus → Unhidden kind { s with slot := none }) :
    s.DiscardsThrough kind (s.ignore kind).2 := by
  obtain ⟨y, hy⟩ := hsymbol
  obtain ⟨cursor, keywords, slot, last⟩ := s
  rw [ignore_eq]
  cases slot with
  | none =>
    have hother : ¬ (latest ⟨cursor, keywords, none, last⟩).any (·.kind = kind) := by
      cases last with
      | none => exact Bool.false_ne_true
      | some t => simpa [latest] using hlast rfl t rfl
    rw [if_neg hother]
    exact discardsThrough_unread rfl hy hk hsigns rfl rfl rfl
  | some t =>
    have hzero : StopsAt kind ⟨cursor, keywords, some t, last⟩ 0 ↔
        t.kind = kind ∨ t.isEnd ∧ cursor.rest = [] := stopsAt_zero rfl
    by_cases hkind : t.kind = kind
    · rw [if_pos (by simpa [latest] using hkind)]
      exact ⟨0, nofun, hzero.2 (.inl hkind), given_congr (get_congr rfl rfl rfl rfl)⟩
    · rw [if_neg (by simpa [latest] using hkind)]
      by_cases hend : t.isEnd ∧ cursor.rest = []
      · refine ⟨0, nofun, hzero.2 (.inr hend), given_congr (get_congr rfl rfl rfl ?_)⟩
        have hnone : ∀ y ∈ cursor.rest, decide (Kind.ofSymbol? y = some kind) = false := by
          rw [hend.2]
          exact nofun
        dsimp only
        rw [Cursor.skipThrough_of_none hnone, hend.2]
        exact Cursor.refill_refill cursor
      · have hstop : ¬ StopsAt kind ⟨cursor, keywords, some t, last⟩ 0 := by
          rw [hzero, not_or]
          exact ⟨hkind, hend⟩
        have hget : get ⟨cursor, keywords, none, last⟩ = get ⟨cursor, keywords, none, some t⟩ :=
          get_congr rfl rfl rfl rfl
        have hbehind : kind = .plus ∨ kind = .minus →
            Unhidden kind ⟨cursor, keywords, none, some t⟩ := fun h => (hsigns h).congr hget
        exact .of_get hstop (@discardsThrough_unread ⟨cursor, keywords, none, some t⟩ kind rfl y hy
          hk hbehind _ rfl rfl rfl)

/-- Behind a rejected character a sum is given up through its sign, and not through
    the one in the exponent behind it. -/
theorem ignore_discards_tokens_plus :
    let s := ofText Dialect.full.keywords "2 $ x + 1e+5".toList
    ((∃ y, Kind.ofSymbol? y = some .plus) ∧ Avoids s.keywords .plus ∧
      (s.slot = none → ∀ t, s.last = some t → t.kind ≠ .plus) ∧
      (Kind.plus = .plus ∨ Kind.plus = .minus → Unhidden .plus { s with slot := none })) ∧
    s.DiscardsThrough .plus (s.ignore .plus).2 := by
  have hsymbol : ∃ y, Kind.ofSymbol? y = some .plus := ⟨'+', rfl⟩
  have hk : Avoids Dialect.full.keywords .plus := Dialect.avoids_of_keywords (by decide) (by decide)
  have hsigns : Unhidden .plus (ofText Dialect.full.keywords "2 $ x + 1e+5".toList) := by
    -- calls that give a two, an error, a name and the sign that is looked for
    have hfirst : (ofText Dialect.full.keywords "2 $ x + 1e+5".toList).given 0 =
        .ok ⟨.number, "2", Binary64.ofDecimal 2 0, 0⟩ := by decide +kernel
    have hsecond : ((ofText Dialect.full.keywords "2 $ x + 1e+5".toList).given 1).toOption =
        none := by decide +kernel
    have hthird : (ofText Dialect.full.keywords "2 $ x + 1e+5".toList).given 2 =
        .ok { kind := .name, lexeme := "x", column := 4 } := by decide +kernel
    have hfourth : (ofText Dialect.full.keywords "2 $ x + 1e+5".toList).given 3 =
        .ok { kind := .plus, lexeme := "+", column := 6 } := by decide +kernel
    generalize ofText Dialect.full.keywords "2 $ x + 1e+5".toList = s at *
    intro n t hn hgiven hnumber x hx
    match n with
    | 0 =>
      rw [hfirst] at hgiven
      cases hgiven
      obtain rfl : x = '2' := by simpa using hx
      exact nofun
    | 1 => rw [hgiven] at hsecond; cases hsecond
    | 2 => rw [hthird] at hgiven; cases hgiven; cases hnumber
    | 3 => rw [hfourth] at hgiven; cases hgiven; cases hnumber
    | n + 4 => exact absurd ⟨_, hfourth, .inl rfl⟩ (hn 3 (by omega))
  exact ⟨⟨hsymbol, hk, nofun, fun _ => hsigns⟩,
    ignore_discards_tokens _ .plus hsymbol hk nofun fun _ => hsigns⟩

/-- A sign that is looked for is found in the exponent of a number too, and then the
    rest of the number is left. -/
theorem ignore_stops_at_sign :
    ¬ ∀ (s : Scanner) (kind : Kind), (∃ y, Kind.ofSymbol? y = some kind) →
      Avoids s.keywords kind → (s.slot = none → ∀ t, s.last = some t → t.kind ≠ kind) →
      s.DiscardsThrough kind (s.ignore kind).2 := by
  intro h
  have hdiscards := h (ofText Dialect.full.keywords "1e+5 + 7".toList) .plus ⟨'+', rfl⟩
    (Dialect.avoids_of_keywords (by decide) (by decide)) nofun
  have hfirst : (ofText Dialect.full.keywords "1e+5 + 7".toList).given 0 =
      .ok ⟨.number, "1e+5", Binary64.ofDecimal 1 5, 0⟩ := by decide +kernel
  have hsecond : (ofText Dialect.full.keywords "1e+5 + 7".toList).given 1 =
      .ok { kind := .plus, lexeme := "+", column := 5 } := by decide +kernel
  have hfive : ((ofText Dialect.full.keywords "1e+5 + 7".toList).ignore .plus).2.given 0 =
      .ok ⟨.number, "5", Binary64.ofDecimal 5 0, 3⟩ := by decide +kernel
  have hseven : ((ofText Dialect.full.keywords "1e+5 + 7".toList).afterGets 2).given 0 =
      .ok ⟨.number, "7", Binary64.ofDecimal 7 0, 7⟩ := by decide +kernel
  generalize ofText Dialect.full.keywords "1e+5 + 7".toList = s at *
  obtain ⟨n, hn, hat, hgiven⟩ := hdiscards
  match n with
  | 0 =>
    obtain ⟨t, ht, hstop⟩ := hat
    rw [hfirst] at ht
    cases ht
    obtain hplus | ⟨hend, -⟩ := hstop
    · cases hplus
    · exact absurd hend (by decide)
  | 1 =>
    have hnext := hgiven 0
    rw [hfive, hseven] at hnext
    exact absurd (congrArg Token.lexeme (Except.ok.inj hnext)) (by decide)
  | n + 2 => exact hn 1 (by omega) ⟨_, hsecond, .inl rfl⟩

end Scanner

end Calculator
