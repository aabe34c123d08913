import Calculator.Proofs.Reading.Places
import Calculator.Proofs.Token.Words

/-! # Reading in the classic dialect and in the full one

    The two dialects have one word and four brackets apart. On a text without
    the word `const`, a scanner of the full dialect gives the tokens that one of
    the classic dialect gives (`Scanner.get_inFull`). The readers differ only
    where a factor begins: there the classic dialect rejects the statement
    because of a bracket that the full dialect knows. Such a rejection is
    `isUnfamiliar`.

    `Follows` compares a reading in the classic dialect with one in the full
    dialect: either the first is rejected in this way, or both do the same.
-/

namespace Calculator

open CrossCheck (SumOp ProductOp)
open Reading Scanner
open Text (Cursor)

/-! ## Unfamiliar brackets -/

/-- The characters that begin a factor in the full dialect only. -/
def fullBrackets : List Char := ['\x7b', '[', '|']

/-- Whether a factor is missing where one of these brackets stands. -/
def Rejection.isUnfamiliar (r : Rejection) : Bool :=
  r.cause = .missingFactor && r.place.any fun p =>
    0 ≤ p.column && p.line[p.column.toNat]?.any (· ∈ fullBrackets)

/-- The statement is rejected because of one of these brackets. -/
def Fault.Unfamiliar (e : Fault) : Prop := ∃ r, e = .rejected r ∧ r.isUnfamiliar

/-- Whether a token of the kind begins a factor in the full dialect only. -/
def Token.Kind.IsFullBracket (k : Kind) : Prop := k = .openBrace ∨ k = .openBracket ∨ k = .bar

/-- The token stands right in front of the cursor, and is spelled as a bracket if it
    is one. -/
structure Token.Shown (t : Token) (c : Cursor) : Prop where
  at_cursor : t.At c
  bracket : t.kind.IsFullBracket → ∃ x ∈ fullBrackets, t.lexeme = String.singleton x

/-- A token that was just read is shown by a rejection because of it. -/
theorem Token.Shown.isUnfamiliar {t : Token} {c : Cursor} (h : t.Shown c)
    (hk : t.kind.IsFullBracket) :
    Rejection.isUnfamiliar ⟨.missingFactor, some ⟨c.line, t.column⟩⟩ := by
  obtain ⟨k, hcolumn, hlexeme, -⟩ := h.at_cursor.place
  obtain ⟨x, hx, hspelling⟩ := h.bracket hk
  rw [hspelling, String.toList_singleton] at hlexeme
  obtain ⟨after, hline⟩ := hlexeme
  have hchar : c.line[k]? = some x := by
    rw [← List.head?_drop, ← hline]
    rfl
  simp [Rejection.isUnfamiliar, hcolumn, hchar, hx]

/-! ## Tokens -/

section lex
variable {cs lexeme : List Char} {kind : Token.Kind} {value : Float}

/-- In the classic dialect only the characters themselves are brackets. -/
theorem Token.lex_eq_bracket
    (h : lex Dialect.classic.keywords cs = .token kind lexeme value)
    (hk : kind.IsFullBracket) : ∃ x ∈ fullBrackets, lexeme = [x] := by
  have havoids : ∀ word, ¬ (wordKind Dialect.classic.keywords word).IsFullBracket := by
    intro word hword
    rcases hword with hword | hword | hword <;> revert hword <;>
      exact Dialect.avoids_of_keywords (by decide) (by decide) word
  unfold lex at h
  split at h
  · cases h
    rcases hk with hk | hk | hk <;> cases hk
  · next first after =>
    split at h
    · next hsymbol =>
      cases h
      refine ⟨first, ?_, rfl⟩
      unfold Kind.ofSymbol? at hsymbol
      split at hsymbol <;> cases hsymbol <;> first | decide | (rcases hk with hk | hk | hk <;> cases hk)
    · split at h
      · cases h
        rcases hk with hk | hk | hk <;> cases hk
      · simp only [Lexed.token.injEq] at h
        exact absurd (h.1 ▸ hk) (havoids _)
      · split at h <;> cases h

theorem Token.wordKind_full {word : String} (h : word ≠ "const") :
    wordKind Dialect.full.keywords word = wordKind Dialect.classic.keywords word := by
  have hclassic : Dialect.classic.keywords =
      [("let", .letWord), ("set", .setWord), ("exit", .quit), ("quit", .quit),
        ("sqrt", .rootWord)] := rfl
  have hconst : (word == "const") = false := by simpa using h
  rw [hclassic]
  simp only [wordKind, Dialect.full, List.lookup_cons, hconst]

/-- A token that is not the word `const` is the same in both dialects. -/
theorem Token.lex_full (h : ∀ kind lexeme value,
    lex Dialect.classic.keywords cs = .token kind lexeme value → String.ofList lexeme ≠ "const") :
    lex Dialect.full.keywords cs = lex Dialect.classic.keywords cs := by
  cases cs with
  | nil => rfl
  | cons first after =>
    simp only [lex] at h ⊢
    cases hsymbol : Kind.ofSymbol? first with
    | some kind => rfl
    | none =>
      rw [hsymbol] at h
      dsimp only at h ⊢
      cases hnumeral : Numeral.scan? (first :: after) with
      | some numeral => rfl
      | none =>
        rw [hnumeral] at h
        cases hword : scanWord? (first :: after) with
        | none => rfl
        | some word =>
          rw [hword] at h
          dsimp only
          rw [wordKind_full (h _ _ _ rfl)]

end lex

/-! ## Scanners -/

/-- The scanner with the words of the full dialect. -/
def Scanner.inFull (s : Scanner) : Scanner := { s with keywords := Dialect.full.keywords }

/-- A scanner of the classic dialect on a text without the word `const`. The token
    in its slot is the one that was read last. -/
def Invariant.classic : Invariant where
  Stop _ := False
  Ready s := s.keywords = Dialect.classic.keywords ∧
    Token.Lacks Dialect.classic.keywords "const" s.cursor.rest ∧
      ∀ t, s.slot = some t → t.Shown s.cursor
  Held t s := s.keywords = Dialect.classic.keywords ∧
    Token.Lacks Dialect.classic.keywords "const" s.cursor.rest ∧ s.slot = none ∧
      t.Shown s.cursor
  Failed s := s.keywords = Dialect.classic.keywords ∧
    Token.Lacks Dialect.classic.keywords "const" s.cursor.rest
  get := by
    rintro s ⟨hkeywords, hlacks, hshown⟩
    cases hslot : s.slot with
    | some t =>
      exact .inl ⟨t, { s with slot := none, last := some t }, by rw [Scanner.get, hslot],
        hkeywords, hlacks, rfl, hshown t hslot⟩
    | none =>
      obtain ⟨hslot', hkeywords', hrest⟩ := get_rest hslot
      rw [hkeywords] at hkeywords' hrest
      have hlacks' := hlacks.behindToken
      rw [← hrest] at hlacks'
      have hgets := s.gets
      cases hget : s.get with
      | mk outcome s' =>
        rw [hget] at hgets hslot' hkeywords' hlacks'
        cases outcome with
        | error r => exact .inr ⟨r, s', rfl, hkeywords', hlacks'⟩
        | ok t =>
          refine .inl ⟨t, s', rfl, hkeywords', hlacks', hslot', at_of_get hslot hget, fun hk => ?_⟩
          cases hgets with
          | held slot => rw [hslot] at slot; cases slot
          | token slot lexed token_eq =>
            rw [hkeywords] at lexed
            rw [token_eq] at hk
            obtain ⟨x, hx, rfl⟩ := Token.lex_eq_bracket lexed hk
            exact ⟨x, hx, by rw [token_eq]; rfl⟩
  held_slot h := h.2.2.1
  ready_hold := by
    rintro t s ⟨hkeywords, hlacks, -, hshown⟩
    refine ⟨hkeywords, hlacks, fun u hu => ?_⟩
    cases hu
    exact hshown
  ready_or_stop := by
    rintro t s ⟨hkeywords, hlacks, hslot, -⟩
    refine .inl ⟨hkeywords, hlacks, fun u hu => ?_⟩
    rw [hslot] at hu
    cases hu
  isStop := isStop_never
  failed_of_ready h := ⟨h.1, h.2.1⟩
  failed_of_held h := ⟨h.1, h.2.1⟩

/-- The scanner gives the same in the full dialect. -/
theorem Scanner.get_inFull {s : Scanner} (h : Invariant.classic.Ready s) :
    s.inFull.get = (s.get.1, s.get.2.inFull) := by
  obtain ⟨hkeywords, hlacks, -⟩ := h
  obtain ⟨cursor, keywords, slot, last⟩ := s
  subst hkeywords
  cases slot with
  | some t => rfl
  | none =>
    have hlex : Token.lex Dialect.full.keywords (cursor.rest.dropWhile Text.isBlank) =
        Token.lex Dialect.classic.keywords (cursor.rest.dropWhile Text.isBlank) :=
      Token.lex_full fun _ _ _ => hlacks.head
    unfold inFull get
    dsimp only
    rw [Token.scan_eq, Token.scan_eq, hlex]
    cases Token.lex Dialect.classic.keywords (cursor.rest.dropWhile Text.isBlank) <;> rfl

/-! ## The judgement -/

/-- From a state of the classic dialect, either the first reading is rejected
    because of an unfamiliar bracket, or the second one does the same in the full
    dialect. -/
def Follows {α : Type} (m₁ m₂ : Reading α) (s : Scanner) (post : α → Scanner → Prop) : Prop :=
  match m₁ s with
  | .ok a s' => m₂ s.inFull = .ok a s'.inFull ∧ post a s'
  | .error e s' => e.Unfamiliar ∨ (m₂ s.inFull = .error e s'.inFull ∧ Invariant.classic.Failed s')

/-- The second reading follows the first from every state, and leaves it ready. -/
def FollowsAll {α : Type} (m₁ m₂ : Reading α) : Prop :=
  ∀ {s}, Invariant.classic.Ready s → Follows m₁ m₂ s fun _ => Invariant.classic.Ready

section judgement
variable {α β : Type} {m₁ m₂ : Reading α} {f₁ f₂ : α → Reading β} {s : Scanner} {t : Token}
  {mid : α → Scanner → Prop} {post : β → Scanner → Prop}

theorem Follows.bind (hm : Follows m₁ m₂ s mid)
    (hf : ∀ a s', mid a s' → Follows (f₁ a) (f₂ a) s' post) :
    Follows (m₁ >>= f₁) (m₂ >>= f₂) s post := by
  unfold Follows at hm
  cases hr : m₁ s with
  | ok a s' =>
    rw [hr] at hm
    have hrest := hf a s' hm.2
    unfold Follows at hrest ⊢
    rw [bind_of_ok hr, bind_of_ok hm.1]
    exact hrest
  | error e s' =>
    rw [hr] at hm
    unfold Follows
    rw [bind_of_error hr]
    exact hm.imp_right fun h => ⟨bind_of_error h.1, h.2⟩

theorem follows_pure {a : α} {post : α → Scanner → Prop} (h : post a s) :
    Follows (pure a) (pure a) s post :=
  ⟨rfl, h⟩

theorem follows_next (h : Invariant.classic.Ready s) :
    Follows next next s Invariant.classic.Held := by
  unfold Follows next
  rw [get_inFull h]
  obtain ⟨t, s', hget, hheld⟩ | ⟨r, s', hget, hfailed⟩ := Invariant.classic.get h
  · rw [hget]
    exact ⟨rfl, hheld⟩
  · rw [hget]
    exact .inr ⟨rfl, hfailed⟩

theorem follows_putBack (h : Invariant.classic.Held t s) :
    Follows (putBack t) (putBack t) s fun _ => Invariant.classic.Ready := by
  have hslot := Invariant.classic.held_slot h
  unfold Follows
  rw [putBack_of_slot hslot, putBack_of_slot (s := s.inFull) hslot]
  exact ⟨rfl, Invariant.classic.ready_hold h⟩

theorem follows_rejectAt {cause : Cause} {post : α → Scanner → Prop}
    (h : Invariant.classic.Failed s) : Follows (rejectAt t cause) (rejectAt t cause) s post :=
  .inr ⟨rfl, h⟩

theorem follows_located (t : Token) (r : Except Cause Float) :
    FollowsAll (located t r) (located t r) := by
  intro s h
  cases r with
  | ok x => exact follows_pure h
  | error cause => exact follows_rejectAt (Invariant.classic.failed_of_ready h)

theorem Invariant.classic_ready_of_held (h : Invariant.classic.Held t s) :
    Invariant.classic.Ready s :=
  (Invariant.classic.ready_or_stop h).resolve_right id

theorem follows_expect (kind : Token.Kind) (cause : Cause) :
    FollowsAll (expect kind cause) (expect kind cause) := by
  intro s h
  refine (follows_next h).bind fun t s' hheld => ?_
  split
  · exact follows_pure (Invariant.classic_ready_of_held hheld)
  · exact follows_rejectAt (Invariant.classic.failed_of_held hheld)

theorem follows_expectClosing (kind : Token.Kind) :
    FollowsAll (expectClosing kind) (expectClosing kind) := by
  intro s h
  unfold expectClosing
  cases kind.closingBracket? with
  | none => exact .inr ⟨rfl, Invariant.classic.failed_of_ready h⟩
  | some bracket => exact (follows_expect _ _ h).bind fun _ _ h => follows_pure h

theorem follows_putBack_pure {x : α} (h : Invariant.classic.Held t s) :
    Follows (putBack t >>= fun _ => pure x) (putBack t >>= fun _ => pure x) s
      fun _ => Invariant.classic.Ready :=
  (follows_putBack h).bind fun _ _ h => follows_pure h

end judgement

/-! ## Behind a token -/

section after
variable {b : Bindings} {s : Scanner} {t : Token}

theorem follows_sumAfter {term₁ term₂ : Reading Float} {more₁ more₂ : Float → Reading Float}
    (hterm : FollowsAll term₁ term₂) (hmore : ∀ x, FollowsAll (more₁ x) (more₂ x))
    (left : Float) (h : Invariant.classic.Held t s) :
    Follows (sumAfter term₁ more₁ left t) (sumAfter term₂ more₂ left t) s
      fun _ => Invariant.classic.Ready := by
  by_cases hop : ∃ op : SumOp, t.kind = op.kind
  · obtain ⟨op, hk⟩ := hop
    rw [sumAfter_of_op hk, sumAfter_of_op hk]
    exact (hterm (Invariant.classic_ready_of_held h)).bind fun y _ h => hmore _ h
  · have hother : ∀ op : SumOp, t.kind ≠ op.kind := fun op hk => hop ⟨op, hk⟩
    rw [sumAfter_of_other hother, sumAfter_of_other hother]
    exact follows_putBack_pure h

theorem follows_productAfter {power₁ power₂ : Reading Float}
    {more₁ more₂ : Float → Reading Float} (hpower : FollowsAll power₁ power₂)
    (hmore : ∀ x, FollowsAll (more₁ x) (more₂ x)) (left : Float)
    (h : Invariant.classic.Held t s) :
    Follows (productAfter power₁ more₁ left t) (productAfter power₂ more₂ left t) s
      fun _ => Invariant.classic.Ready := by
  by_cases hop : ∃ op : ProductOp, t.kind = op.kind
  · obtain ⟨op, hk⟩ := hop
    rw [productAfter_of_op hk, productAfter_of_op hk]
    refine (hpower (Invariant.classic_ready_of_held h)).bind fun y _ h => ?_
    exact (follows_located t _ h).bind fun z _ h => hmore z h
  · have hother : ∀ op : ProductOp, t.kind ≠ op.kind := fun op hk => hop ⟨op, hk⟩
    rw [productAfter_of_other hother, productAfter_of_other hother]
    exact follows_putBack_pure h

theorem follows_powerAfter {factor₁ factor₂ : Reading Float}
    (hfactor : FollowsAll factor₁ factor₂) (base : Float) (h : Invariant.classic.Held t s) :
    Follows (powerAfter factor₁ base t) (powerAfter factor₂ base t) s
      fun _ => Invariant.classic.Ready := by
  have hready := Invariant.classic_ready_of_held h
  unfold powerAfter
  cases t.kind
  case bang => exact follows_located t _ hready
  case caret => exact (hfactor hready).bind fun y _ h => follows_pure h
  all_goals exact follows_putBack_pure h

theorem follows_groupRest {inner₁ inner₂ : Reading Float} (hinner : FollowsAll inner₁ inner₂)
    (closing : Token.Kind) (f : Float → Float) :
    FollowsAll (groupRest inner₁ closing f) (groupRest inner₂ closing f) := by
  intro s h
  refine (hinner h).bind fun x _ h => ?_
  exact (follows_expectClosing closing h).bind fun _ _ h => follows_pure h

theorem follows_rootRest {inner₁ inner₂ : Reading Float} (hinner : FollowsAll inner₁ inner₂)
    (t : Token) : FollowsAll (rootRest inner₁ t) (rootRest inner₂ t) := by
  intro s h
  refine (follows_expect _ _ h).bind fun _ _ h => ?_
  refine (hinner h).bind fun x _ h => ?_
  refine (follows_located t _ h).bind fun y _ h => ?_
  exact (follows_expectClosing _ h).bind fun _ _ h => follows_pure h

/-- The dialects agree on which tokens open a group, brackets of the full dialect
    apart. -/
theorem Dialect.closing?_full {t : Token} (h : ¬ t.kind.IsFullBracket) :
    Dialect.full.closing? t = Dialect.classic.closing? t := by
  unfold closing?
  split
  · rfl
  · unfold Token.Kind.IsFullBracket at h
    cases hk : t.kind <;> simp_all <;> rfl

/-- A factor that begins with one of these brackets is rejected. -/
theorem follows_of_bracket {inner factor : Reading Float} {m₂ : Reading Float}
    (hk : t.kind.IsFullBracket) (h : Invariant.classic.Held t s)
    {post : Float → Scanner → Prop} :
    Follows (factorAfter .classic b inner factor t) m₂ s post := by
  have hreject : factorAfter .classic b inner factor t = rejectAt t .missingFactor := by
    have hclosing : Dialect.classic.closing? t = none := by
      unfold Dialect.closing?
      split
      · rfl
      · rcases hk with hk | hk | hk <;> (rw [hk]; rfl)
    unfold factorAfter
    rw [hclosing]
    obtain hk | hk | hk := hk
    · rw [hk]
    · rw [hk]
    · -- the dialect has no absolute values
      rw [hk]
      rfl
  rw [hreject]
  exact .inl ⟨_, rfl, h.2.2.2.isUnfamiliar hk⟩

theorem follows_factorAfter {inner₁ inner₂ factor₁ factor₂ : Reading Float}
    (hinner : FollowsAll inner₁ inner₂) (hfactor : FollowsAll factor₁ factor₂)
    (h : Invariant.classic.Held t s) :
    Follows (factorAfter .classic b inner₁ factor₁ t) (factorAfter .full b inner₂ factor₂ t) s
      fun _ => Invariant.classic.Ready := by
  by_cases hk : t.kind.IsFullBracket
  · exact follows_of_bracket hk h
  · have hready := Invariant.classic_ready_of_held h
    unfold factorAfter
    rw [Dialect.closing?_full hk]
    cases Dialect.classic.closing? t with
    | some closing => exact follows_groupRest hinner closing id hready
    | none =>
      cases hkind : t.kind
      case bar => exact absurd (.inr (.inr hkind)) hk
      case rootWord => exact follows_rootRest hinner t hready
      case minus => exact (hfactor hready).bind fun x _ h => follows_pure h
      case plus => exact hfactor hready
      case number => exact follows_pure hready
      case name => exact follows_located t _ hready
      all_goals exact follows_rejectAt (Invariant.classic.failed_of_held h)

end after

/-! ## The readers -/

/-- The readers with budget `n` in the full dialect follow those in the classic
    one. -/
structure FollowsWithin (b : Bindings) (n : Nat) : Prop where
  factor : FollowsAll (factorWithin .classic b n) (factorWithin .full b n)
  power : FollowsAll (powerWithin .classic b n) (powerWithin .full b n)
  product : ∀ left, FollowsAll (productWithin .classic b n left) (productWithin .full b n left)
  term : FollowsAll (termWithin .classic b n) (termWithin .full b n)
  sum : ∀ left, FollowsAll (sumWithin .classic b n left) (sumWithin .full b n left)
  expression : FollowsAll (expressionWithin .classic b n) (expressionWithin .full b n)

theorem followsWithin (b : Bindings) (n : Nat) : FollowsWithin b n := by
  -- Induction on the budget; every reader calls the others with a smaller one.
  induction n with
  | zero =>
    constructor <;> intros <;> intro s h <;>
      exact .inr ⟨rfl, Invariant.classic.failed_of_ready h⟩
  | succ n ih =>
    exact
      { factor := fun h => (follows_next h).bind fun _ _ h =>
          follows_factorAfter ih.expression ih.factor h
        power := fun h => (ih.factor h).bind fun x _ h => (follows_next h).bind fun _ _ h =>
          follows_powerAfter ih.factor x h
        product := fun left _ h => (follows_next h).bind fun _ _ h =>
          follows_productAfter ih.power ih.product left h
        term := fun h => (ih.power h).bind fun x _ h => ih.product x h
        sum := fun left _ h => (follows_next h).bind fun _ _ h =>
          follows_sumAfter ih.term ih.sum left h
        expression := fun h => (ih.term h).bind fun x _ h => ih.sum x h }

section statements
variable {b : Bindings}

/-- Both scanners have the same left to read, and so the same budget. -/
theorem follows_expression (b : Bindings) :
    FollowsAll (expression .classic b) (expression .full b) := fun {s} h =>
  (followsWithin b s.nestingBudget).expression h

theorem follows_readClause (clause : Clause) :
    FollowsAll (readClause .classic b clause) (readClause .full b clause) := by
  intro s h
  refine (follows_expect _ _ h).bind fun name _ h => ?_
  refine (follows_expect _ _ h).bind fun _ _ h => ?_
  exact (follows_expression b h).bind fun v _ h => follows_pure h

/-- The statements that begin with a word are the same in both dialects; `const` is
    none in the text. -/
theorem follows_statementAfter {t : Token} {s : Scanner} (h : Invariant.classic.Held t s) :
    Follows (statementAfter .classic b t) (statementAfter .full b t) s
      fun _ => Invariant.classic.Ready := by
  have hready := Invariant.classic_ready_of_held h
  unfold statementAfter
  cases t.kind
  case letWord | constWord | setWord =>
    exact (follows_readClause _ hready).bind fun _ _ h => follows_pure h
  all_goals
    exact (follows_putBack h).bind fun _ _ h => (follows_expression b h).bind fun v _ h =>
      follows_pure h

theorem follows_readStart (n : Nat) {s : Scanner} (h : Invariant.classic.Ready s) :
    Follows (readStart n) (readStart n) s Invariant.classic.Held := by
  induction n generalizing s with
  | zero => exact .inr ⟨rfl, Invariant.classic.failed_of_ready h⟩
  | succ n ih =>
    refine (follows_next h).bind fun t s' hheld => ?_
    split
    · exact ih (Invariant.classic_ready_of_held hheld)
    · exact follows_pure hheld

/-- Up to its first token a statement is read without regard to the dialect. -/
theorem follows_firstToken {s : Scanner} (h : Invariant.classic.Ready s) :
    Follows firstToken firstToken s Invariant.classic.Held :=
  follows_readStart (s.remaining + 1) h

end statements

end Calculator
