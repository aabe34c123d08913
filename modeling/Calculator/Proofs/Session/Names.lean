import Calculator.Proofs.Session.Effects
import Calculator.Proofs.Session.ReadBack
import Calculator.Proofs.Session.Recovery
import Calculator.Proofs.Session.Rounds
import Calculator.Proofs.Token.Spacing

/-! # Names that can be said

    A name is declared with a token that was scanned as a name, so it is a word and no
    keyword of the dialect (`Reads.sayable`). So whatever a session has
    declared, its text is one token, which is scanned as a name again. The statement
    of this token has the value of the entry, a clause that declares the name once more
    is refused, and an assignment is refused for a constant only
    (`Session.entries_stay_reachable`).
-/

namespace Calculator

open Bindings Reading Scanner
open Text (isBlank)

variable {d : Dialect} {keywords : Keywords}

/-! ## Names -/

namespace Token

variable {w : List Char} {name : String}

/-- The text is a word, and no keyword. -/
structure IsName (keywords : Keywords) (name : String) : Prop where
  word : IsWord name.toList
  plain : wordKind keywords name = .name

theorem isWord_of_scanWord? {cs : List Char} (h : scanWord? cs = some w) : IsWord w :=
  (longest_of_scanWord? h).mem

theorem IsWord.ne_nil (hw : IsWord w) : w ≠ [] := by
  obtain ⟨x, after, rfl, -⟩ := hw
  exact List.cons_ne_nil x after

/-- A word is one token. -/
theorem lex_of_isWord (keywords : Keywords) (hw : IsWord w) :
    lex keywords w = .token (wordKind keywords (String.ofList w)) w 0 := by
  obtain ⟨v, hlongest, hlex⟩ := lex_of_word keywords hw (List.prefix_refl w)
  obtain rfl : v = w :=
    hlongest.start.eq_of_length_le (hlongest.longest w hw (List.prefix_refl w))
  exact hlex

/-- A token that was scanned as a name has the text of a name. -/
theorem isName_of_lex {cs : List Char} {value : Float}
    (h : lex keywords cs = .token .name w value) : IsName keywords (String.ofList w) := by
  generalize hkind : Kind.name = kind at h
  cases lexes_of_lex h with
  | ended => cases hkind
  | @symbol x _ hx =>
    subst hkind
    unfold Kind.ofSymbol? at hx
    split at hx <;> cases hx
  | number => cases hkind
  | word hscan =>
    refine ⟨?_, hkind.symm⟩
    rw [String.toList_ofList]
    exact isWord_of_scanWord? hscan

end Token

namespace Scanner

variable {s s' : Scanner} {t : Token} {ts : List Token}

theorem isName_of_get (hslot : s.slot = none) (hget : s.get = (.ok t, s')) (hk : t.kind = .name) :
    Token.IsName s.keywords t.lexeme := by
  have hgets := s.gets
  rw [hget] at hgets
  cases hgets with
  | held slot => rw [hslot] at slot; cases slot
  | token _ lexed token_eq =>
    subst token_eq
    dsimp only at hk
    rw [hk] at lexed
    exact Token.isName_of_lex lexed

/-! ## Texts of a few tokens -/

/-- Calls that give some tokens and then the end of the text take just these. -/
theorem exists_gives_of_given (h : ∀ n, Agree (.ok (ts[n]?.getD .endOfText)) (s.given n)) :
    ∃ us s', s.Gives us s' ∧ List.Forall₂ Token.Alike ts us ∧ s'.Drained := by
  induction ts generalizing s with
  | nil =>
    refine ⟨[], s, rfl, .nil, fun n => ?_⟩
    have hend := h n
    rw [List.getElem?_nil, Option.getD_none] at hend
    cases hgiven : s.given n with
    | error r => rw [hgiven] at hend; cases hend
    | ok t =>
      rw [hgiven] at hend
      exact ⟨t, rfl, hend.isEnd.symm.trans rfl⟩
  | cons t ts ih =>
    have hfirst := h 0
    have hrest := fun n => h (n + 1)
    rw [given_zero] at hfirst
    simp only [given_succ, List.getElem?_cons_succ] at hrest
    cases hget : s.get with
    | mk result s₁ =>
      rw [hget] at hfirst hrest
      cases result with
      | error r => cases hfirst
      | ok u =>
        obtain ⟨us, s', hgives, halike, hdrained⟩ := ih hrest
        exact ⟨u :: us, s', ⟨s₁, hget, hgives⟩, .cons hfirst halike, hdrained⟩

theorem Drained.exists_get (h : s.Drained) :
    ∃ t s', s.get = (.ok t, s') ∧ t.isEnd ∧ s'.Drained := by
  obtain ⟨t, hgiven, ht⟩ := h 0
  cases hget : s.get with
  | mk result s' =>
    rw [given_zero, hget] at hgiven
    dsimp only at hgiven
    subst hgiven
    refine ⟨t, s', rfl, ht, fun n => ?_⟩
    have hnext := h (n + 1)
    rwa [given_succ, hget] at hnext

/-- Tokens with single blanks between them are scanned again, and then comes the end of
    the text. -/
theorem exists_gives_joined (hts : ∀ t ∈ ts, Token.Scanned keywords t) :
    ∃ us t s', (ofText keywords (Token.joined ts)).Gives (us ++ [t]) s' ∧
      List.Forall₂ Token.Alike ts us ∧ t.isEnd ∧ (s'.hold t).Drained := by
  have hgiven := given_joined (s := ofText keywords (Token.joined ts)) rfl hts
    (congrArg (List.dropWhile isBlank) (Text.Cursor.rest_ofText _))
  obtain ⟨us, s₁, hgives, halike, hdrained⟩ := exists_gives_of_given hgiven
  obtain ⟨t, s', hget, ht, hdrained'⟩ := hdrained.exists_get
  exact ⟨us, t, s', gives_append.2 ⟨s₁, hgives, gives_singleton.2 hget⟩, halike, ht,
    hdrained'.hold hget ht⟩

end Scanner

/-! ## One statement -/

section statement
variable {b : Bindings} {name word : String} {v : Float} {kind : Token.Kind}

/-- The text of a token by itself is scanned as this token. -/
theorem Token.exists_scanned {w : List Char} (hlex : lex keywords w = .token kind w v)
    (hne : w ≠ []) :
    ∃ t, Scanned keywords t ∧ t.kind = kind ∧ t.lexeme = String.ofList w ∧ t.value = v := by
  have hdrop : w.dropWhile isBlank = w := by
    have hlex' : lex keywords (w ++ []) = .token kind w v := by rwa [List.append_nil]
    rw [← List.append_nil w]
    exact (behindToken_of_token hlex' hne).1
  let c := Text.Cursor.ofText w
  refine ⟨⟨kind, String.ofList w, v, (skipBlanks c).column⟩, ⟨?_, c, ?_⟩, rfl, rfl, rfl⟩
  · simp [isEnd, hne]
  · rw [scan_eq, Text.Cursor.rest_ofText, hdrop, hlex]

theorem Token.lex_zero (keywords : Keywords) : lex keywords ['0'] = .token .number ['0'] 0 := by
  have hsymbol : Kind.ofSymbol? '0' = none := rfl
  have hscan : Numeral.scan? ['0'] = some ⟨['0'], none, none⟩ := by decide
  have hvalue : (⟨['0'], none, none⟩ : Numeral).value = 0 := by decide +kernel
  simp only [lex, hsymbol, hscan, hvalue]
  rfl

/-- A name is scanned as itself. -/
theorem exists_gives_name (hname : Token.IsName keywords name) :
    ∃ u t s', (Scanner.ofText keywords name.toList).Gives [u, t] s' ∧ u.kind = .name ∧
      u.lexeme = name ∧ t.isEnd ∧ (s'.hold t).Drained := by
  have hlex := Token.lex_of_isWord keywords hname.word
  rw [String.ofList_toList, hname.plain] at hlex
  obtain ⟨t₁, hscanned, hkind, hlexeme, -⟩ := Token.exists_scanned hlex hname.word.ne_nil
  rw [String.ofList_toList] at hlexeme
  have hts : ∀ t ∈ [t₁], Token.Scanned keywords t := List.forall_mem_singleton.2 hscanned
  obtain ⟨us, t, s', hgives, halike, hend, hdrained⟩ := exists_gives_joined hts
  obtain _ | ⟨hu, _ | _⟩ := halike
  have htext : Token.joined [t₁] = name.toList := by simp [Token.joined, hlexeme]
  rw [htext] at hgives
  exact ⟨_, t, s', hgives, hu.kind.symm.trans hkind, hu.lexeme.symm.trans hlexeme, hend, hdrained⟩

/-- The clause that gives a name the value `0`. -/
def zeroClause (word name : String) : String := word ++ " " ++ name ++ " = 0"

/-- The clause is scanned as its four tokens. -/
theorem exists_gives_clause (hname : Token.IsName keywords name)
    (hword : Token.IsWord word.toList) (hkind : Token.wordKind keywords word = kind) :
    ∃ (first second sign zero t : Token) (s' : Scanner),
      (Scanner.ofText keywords (zeroClause word name).toList).Gives
        [first, second, sign, zero, t] s' ∧ first.kind = kind ∧ second.kind = .name ∧
      second.lexeme = name ∧ sign.kind = .equals ∧ zero.kind = .number ∧ zero.value = 0 ∧
      t.isEnd ∧ (s'.hold t).Drained := by
  have hlex := Token.lex_of_isWord keywords hword
  have hlex' := Token.lex_of_isWord keywords hname.word
  rw [String.ofList_toList, hkind] at hlex
  rw [String.ofList_toList, hname.plain] at hlex'
  have hsign : Token.lex keywords ['='] = .token .equals ['='] 0 := rfl
  obtain ⟨t₁, hscanned₁, hkind₁, hlexeme₁, -⟩ := Token.exists_scanned hlex hword.ne_nil
  obtain ⟨t₂, hscanned₂, hkind₂, hlexeme₂, -⟩ := Token.exists_scanned hlex' hname.word.ne_nil
  obtain ⟨t₃, hscanned₃, hkind₃, hlexeme₃, -⟩ := Token.exists_scanned hsign (by decide)
  obtain ⟨t₄, hscanned₄, hkind₄, hlexeme₄, hvalue₄⟩ :=
    Token.exists_scanned (Token.lex_zero keywords) (by decide)
  rw [String.ofList_toList] at hlexeme₁ hlexeme₂
  have hts : ∀ t ∈ [t₁, t₂, t₃, t₄], Token.Scanned keywords t := by
    simp [hscanned₁, hscanned₂, hscanned₃, hscanned₄]
  obtain ⟨us, t, s', hgives, halike, hend, hdrained⟩ := exists_gives_joined hts
  obtain _ | ⟨h₁, _ | ⟨h₂, _ | ⟨h₃, _ | ⟨h₄, _ | _⟩⟩⟩⟩ := halike
  have htext : Token.joined [t₁, t₂, t₃, t₄] = (zeroClause word name).toList := by
    simp [zeroClause, Token.joined, hlexeme₁, hlexeme₂, hlexeme₃, hlexeme₄]
  rw [htext] at hgives
  exact ⟨_, _, _, _, t, s', hgives, h₁.kind.symm.trans hkind₁, h₂.kind.symm.trans hkind₂,
    h₂.lexeme.symm.trans hlexeme₂, h₃.kind.symm.trans hkind₃, h₄.kind.symm.trans hkind₄,
    h₄.value.symm.trans hvalue₄, hend, hdrained⟩

end statement

namespace Session

variable {b : Bindings} {name word : String} {v : Float} {kind : Token.Kind}

/-- One statement on the text has the outcome and leaves the bindings `b'`, and nothing
    but the end of the text is left. -/
def Evaluates (d : Dialect) (b : Bindings) (text : String) (o : Outcome) (b' : Bindings) :
    Prop :=
  ∃ s', (ofText d b text.toList).statement = .ok o s' ∧ s'.bindings = b' ∧ s'.scanner.Drained

/-- One statement on the text is rejected for a cause of the category, and changes
    nothing. -/
def Denies (d : Dialect) (b : Bindings) (text : String) (category : Category) : Prop :=
  ∃ cause s', (ofText d b text.toList).statement = .error (.rejected ⟨cause, none⟩) s' ∧
    cause.category = category ∧ s'.bindings = b

theorem Evaluates.unique {text : String} {o₁ o₂ : Outcome} {b₁ b₂ : Bindings}
    (h₁ : Evaluates d b text o₁ b₁) (h₂ : Evaluates d b text o₂ b₂) : o₁ = o₂ ∧ b₁ = b₂ := by
  obtain ⟨s₁, heq₁, rfl, -⟩ := h₁
  obtain ⟨s₂, heq₂, rfl, -⟩ := h₂
  rw [heq₁] at heq₂
  cases heq₂
  exact ⟨rfl, rfl⟩

theorem Denies.not_evaluates {text : String} {category : Category} (h : Denies d b text category)
    {o : Outcome} {b' : Bindings} : ¬Evaluates d b text o b' := by
  rintro ⟨s₁, heq₁, -⟩
  obtain ⟨cause, s₂, heq₂, -⟩ := h
  rw [heq₁] at heq₂
  cases heq₂

theorem evaluates_name (hd : d.GroupsWithin .full) (hname : Token.IsName d.keywords name)
    (hget : b.get name = .ok v) : Evaluates d b name ⟨v, none⟩ b := by
  obtain ⟨u, t, s', hgives, hk, hlexeme, hend, hdrained⟩ := exists_gives_name hname
  have hplain : d.closing? u = none := hd.closing?_eq_none (by rw [hk]; rfl)
  let T : Tree d .expression := .term (.power (.factor (.name ⟨u, hk, hplain⟩)))
  have hvalue : T.value b = .ok v := by
    rw [← hlexeme] at hget
    exact hget
  exact ⟨_, statement_of_sentence (s := ofText d b name.toList) hd (.print hvalue) rfl hgives
    (.inr (Token.kind_of_isEnd hend)), rfl, hdrained⟩

/-- The action of a clause by the kind of the word that it begins with. -/
def clauseAction? (name : String) (v : Float) : Token.Kind → Option Action
  | .letWord => some (.declare name v false)
  | .constWord => some (.declare name v true)
  | .setWord => some (.assign name v)
  | _ => none

section clause
variable (hd : d.GroupsWithin .full) (hname : Token.IsName d.keywords name)
  (hword : Token.IsWord word.toList) (hkind : Token.wordKind d.keywords word = kind)
  {a : Action} (ha : clauseAction? name 0 kind = some a)
include hd hname hword hkind ha

/-- A clause that gives a name the value `0` is a sentence. -/
theorem exists_sentence (b : Bindings) :
    ∃ ts t s', Sentence d b ts a ∧
      (Scanner.ofText d.keywords (zeroClause word name).toList).Gives (ts ++ [t]) s' ∧
      t.IsStop ∧ (s'.hold t).Drained := by
  obtain ⟨first, second, sign, zero, t, s', hgives, hk, hk₂, rfl, hk₃, hk₄, hzero, hend,
    hdrained⟩ := exists_gives_clause hname hword hkind
  have hplain : d.closing? zero = none := hd.closing?_eq_none (by rw [hk₄]; rfl)
  let T : Tree d .expression := .term (.power (.factor (.number ⟨zero, hk₄, hplain⟩)))
  have hvalue : T.value b = .ok 0 := congrArg Except.ok hzero
  refine ⟨first :: second :: sign :: T.yield, t, s', ?_, hgives,
    .inr (Token.kind_of_isEnd hend), hdrained⟩
  cases kind <;> cases ha
  · exact .letClause hk hk₂ hk₃ hvalue
  · exact .constClause hk hk₂ hk₃ hvalue
  · exact .setClause hk hk₂ hk₃ hvalue

theorem evaluates_clause {change : Change} (hchange : b.change? a = .ok (some change)) :
    Evaluates d b (zeroClause word name) ⟨a.value, some change⟩ (b.apply change) := by
  obtain ⟨ts, t, s', hsentence, hgives, ht, hdrained⟩ := exists_sentence hd hname hword hkind ha b
  exact ⟨_, statement_of_sentence (s := ofText d b _) hd hsentence hchange hgives ht, rfl,
    hdrained⟩

theorem denies_clause {cause : Cause} (hchange : b.change? a = .error cause) :
    Denies d b (zeroClause word name) cause.category := by
  obtain ⟨ts, t, s', hsentence, hgives, ht, -⟩ := exists_sentence hd hname hword hkind ha b
  exact ⟨cause, _, statement_of_refused (s := ofText d b _) hd hsentence hchange hgives ht, rfl,
    rfl⟩

end clause

/-! ### Clauses of the built-in dialects -/

theorem isWord_of_clauseWord (h : word ∈ ["let", "const", "set"]) : Token.IsWord word.toList := by
  have hscan : ∀ word ∈ ["let", "const", "set"],
      Token.scanWord? word.toList = some word.toList := by decide
  exact Token.isWord_of_scanWord? (hscan word h)

section builtIn
variable (hd : d.IsBuiltIn) (hname : Token.IsName d.keywords name)
include hd hname

theorem denies_let (hfound : (b.find? name).isSome) : Denies d b (zeroClause "let" name) .name := by
  have hkind : Token.wordKind d.keywords "let" = .letWord := by obtain rfl | rfl := hd <;> rfl
  exact denies_clause hd.groupsWithin hname (isWord_of_clauseWord (by simp)) hkind rfl
    (change?_declare_eq_error.2 ⟨hfound, rfl⟩)

theorem denies_const (hfull : d = .full) (hfound : (b.find? name).isSome) :
    Denies d b (zeroClause "const" name) .name := by
  have hkind : Token.wordKind d.keywords "const" = .constWord := by rw [hfull]; rfl
  exact denies_clause hd.groupsWithin hname (isWord_of_clauseWord (by simp)) hkind rfl
    (change?_declare_eq_error.2 ⟨hfound, rfl⟩)

theorem denies_set (hfound : b.find? name = some ⟨name, v, true⟩) :
    Denies d b (zeroClause "set" name) .constant := by
  have hkind : Token.wordKind d.keywords "set" = .setWord := by obtain rfl | rfl := hd <;> rfl
  exact denies_clause hd.groupsWithin hname (isWord_of_clauseWord (by simp)) hkind rfl
    (change?_assign_eq_error.2 (.inr ⟨v, hfound, rfl⟩))

theorem evaluates_set (hfound : b.find? name = some ⟨name, v, false⟩) :
    Evaluates d b (zeroClause "set" name) ⟨0, some (.assigned name 0 v)⟩
      (b.apply (.assigned name 0 v)) := by
  have hkind : Token.wordKind d.keywords "set" = .setWord := by obtain rfl | rfl := hd <;> rfl
  exact evaluates_clause hd.groupsWithin hname (isWord_of_clauseWord (by simp)) hkind rfl
    (change?_assign_eq_ok.2 ⟨v, hfound, rfl⟩)

/-- Whatever the assignment leaves, the name has the new value there. -/
theorem evaluates_name_of_set (hfound : b.find? name = some ⟨name, v, false⟩) {o : Outcome}
    {b' : Bindings} (hset : Evaluates d b (zeroClause "set" name) o b') :
    Evaluates d b' name ⟨0, none⟩ b' := by
  obtain ⟨-, rfl⟩ := hset.unique (evaluates_set hd hname hfound)
  refine evaluates_name hd.groupsWithin hname ?_
  rw [get_eq_ok, find?_assigned hfound, if_pos rfl]
  rfl

end builtIn

end Session

/-! ## The names of a session -/

/-- The names can be said in the language, and no two entries have the same. -/
structure Bindings.Sayable (keywords : Keywords) (b : Bindings) : Prop where
  isName : ∀ name ∈ b.names, Token.IsName keywords name
  nodup : b.names.Nodup

namespace Bindings

variable {b : Bindings}

theorem sayable_initial (hd : d.IsBuiltIn) : Sayable d.keywords initial := by
  refine ⟨fun name hname => ?_, by decide⟩
  have hscan : ∀ name ∈ initial.names, Token.scanWord? name.toList = some name.toList := by decide
  have hplain : ∀ name ∈ initial.names, Token.wordKind d.keywords name = .name := by
    obtain rfl | rfl := hd <;> decide
  exact ⟨Token.isWord_of_scanWord? (hscan name hname), hplain name hname⟩

theorem Sayable.apply {change : Change} (h : b.Sayable keywords) (allowed : b.Allows change)
    (hname : ∀ p, change.declaration? = some p → Token.IsName keywords p.1) :
    (b.apply change).Sayable keywords := by
  refine ⟨fun name hmem => ?_, nodup_apply allowed h.nodup⟩
  rw [names_eq, signature_apply allowed, List.map_append, List.mem_append, ← names_eq] at hmem
  obtain hmem | hmem := hmem
  · exact h.isName name hmem
  · obtain ⟨p, hp, rfl⟩ := List.mem_map.1 hmem
    exact hname p (Option.mem_toList.1 hp)

/-- Only a declaration declares a name, and it is that one. -/
theorem declaration?_of_change? {a : Action} {change : Change} {p : String × Bool}
    (h : b.change? a = .ok (some change)) (hp : change.declaration? = some p) :
    ∃ v, a = .declare p.1 v p.2 := by
  cases a with
  | print v => cases h
  | declare name v constant =>
    obtain ⟨-, hchange⟩ := change?_declare_eq_ok.1 h
    cases hchange
    cases hp
    exact ⟨v, rfl⟩
  | assign name v =>
    obtain ⟨old, -, hchange⟩ := change?_assign_eq_ok.1 h
    cases hchange
    cases hp

end Bindings

/-- A sentence that was read behind its first token declares the name in its second one. -/
theorem Sentence.isName {b : Bindings} {ts : List Token} {name : String} {v : Float}
    {constant : Bool} {t : Token} {s r : Scanner}
    (h : Sentence d b ts (.declare name v constant)) (hslot : s.slot = none)
    (hlast : s.last = some t) (hpeeked : (s.hold t).Peeked ts r) :
    Token.IsName s.keywords name := by
  have hclause {word second sign : Token} {us : List Token} (hk : second.kind = .name)
      (hpeeked : (s.hold t).Peeked (word :: second :: sign :: us) r) :
      Token.IsName s.keywords second.lexeme := by
    obtain ⟨u, s', ⟨s₁, hfirst, s₂, hsecond, -⟩, -⟩ := hpeeked
    rw [get_hold_of_last hslot hlast] at hfirst
    cases hfirst
    exact isName_of_get hslot hsecond hk
  cases h with
  | letClause _ hname => exact hclause hname hpeeked
  | constClause _ hname => exact hclause hname hpeeked

namespace Session

variable {text : List Char} {s s' s₀ s₁ : Session}

/-- A turn leaves names that can be said. -/
theorem Reads.sayable (h : s.Reads d text) (hb : s.bindings.Sayable d.keywords) {o : Outcome}
    (hturn : s.turn = .ok (some o) s') : s'.bindings.Sayable d.keywords := by
  cases turns_of_eq hturn with
  | @carriedOut t scanner a scanner' change first quit after changed =>
    cases change with
    | none => exact hb
    | some change =>
      refine hb.apply (allows_of_change? changed) fun p hp => ?_
      obtain ⟨v, rfl⟩ := declaration?_of_change? changed hp
      obtain ⟨-, hslot, hlast, -⟩ := firstToken_ok first
      obtain ⟨ts, hsentence, hpeeked⟩ := statementAfter_ok hslot hlast after
      rw [← (h.held first).1]
      exact hsentence.isName hslot hlast hpeeked

theorem Reaches.sayable (h : s₀.Reaches s) (h₀ : s₀.Reads d text)
    (hb : s₀.bindings.Sayable d.keywords) : s.bindings.Sayable d.keywords := by
  induction h with
  | refl => exact hb
  | value h turn ih => exact (h.reads h₀).sayable ih turn
  | recovery h turn ih =>
    rw [recover_bindings, bindings_of_turn_error turn]
    exact ih

theorem Visits.sayable (h : s₀.Visits s) (h₀ : s₀.Reads d text)
    (hb : s₀.bindings.Sayable d.keywords) : s.bindings.Sayable d.keywords := by
  cases h with
  | before h => exact h.sayable h₀ hb
  | @completed s _ o h turn =>
    have hs := h.sayable h₀ hb
    cases o with
    | none => rwa [bindings_of_turn_none turn]
    | some o => exact (h.reads h₀).sayable hs turn
  | failed h turn =>
    rw [bindings_of_turn_error turn]
    exact h.sayable h₀ hb

/-! ## Reachable entries -/

/-- What can be said of an entry in the language. -/
structure Reachable (d : Dialect) (b : Bindings) (v : Binding) : Prop where
  /-- The name is a word and no keyword. -/
  isName : Token.IsName d.keywords v.name
  /-- It is scanned as one token, and then comes the end of the text. -/
  scanned : ∃ u t s', (Scanner.ofText d.keywords v.name.toList).Gives [u, t] s' ∧
    u.kind = .name ∧ u.lexeme = v.name ∧ t.isEnd
  value : Evaluates d b v.name ⟨v.value, none⟩ b
  let_denied : Denies d b (zeroClause "let" v.name) .name
  const_denied : d = .full → Denies d b (zeroClause "const" v.name) .name
  /-- A variable can be assigned to, and nothing else. -/
  set_iff : (∃ o b', Evaluates d b (zeroClause "set" v.name) o b') ↔ v.constant = false
  set_denied : v.constant = true → Denies d b (zeroClause "set" v.name) .constant
  /-- Behind the assignment the name has the new value. -/
  set_value : v.constant = false → ∀ b',
    (∃ o, Evaluates d b (zeroClause "set" v.name) o b') → Evaluates d b' v.name ⟨0, none⟩ b'

/-- In bindings whose names can be said, every entry is reachable. -/
theorem reachable_of_sayable (hd : d.IsBuiltIn) {b : Bindings} (hb : b.Sayable d.keywords)
    {v : Binding} (hv : v ∈ b.entries) : Reachable d b v := by
  have hname : Token.IsName d.keywords v.name := hb.isName v.name (List.mem_map_of_mem hv)
  have hfind : b.find? v.name = some v := find?_of_mem hb.nodup hv
  have hfound : (b.find? v.name).isSome := by rw [hfind]; rfl
  have hentry {constant : Bool} (hc : v.constant = constant) :
      b.find? v.name = some ⟨v.name, v.value, constant⟩ := by rw [hfind, ← hc]
  obtain ⟨u, t, s', hgives, hk, hlexeme, hend, -⟩ := exists_gives_name hname
  exact {
    isName := hname
    scanned := ⟨u, t, s', hgives, hk, hlexeme, hend⟩
    value := evaluates_name hd.groupsWithin hname (get_eq_ok.2 (by rw [hfind]; rfl))
    let_denied := denies_let hd hname hfound
    const_denied := fun hfull => denies_const hd hname hfull hfound
    set_iff := by
      constructor
      · rintro ⟨o, b', hset⟩
        cases hc : v.constant with
        | false => rfl
        | true => exact absurd hset (denies_set hd hname (hentry hc)).not_evaluates
      · exact fun hc => ⟨_, _, evaluates_set hd hname (hentry hc)⟩
    set_denied := fun hc => denies_set hd hname (hentry hc)
    set_value := by
      rintro hc b' ⟨o, hset⟩
      exact evaluates_name_of_set hd hname (hentry hc) hset }

/-- Every entry of the bindings that a session of a built-in dialect comes to stays
    reachable in the language. -/
theorem entries_stay_reachable (hd : d.IsBuiltIn)
    (h : (ofText d .initial text).Visits s) {v : Binding} (hv : v ∈ s.bindings.entries) :
    Reachable d s.bindings v :=
  reachable_of_sayable hd (h.sayable (reads_ofText d .initial text) (sayable_initial hd)) hv

/-- A variable that was declared in front of a rejected statement is reachable at the end. -/
theorem entries_stay_reachable_variable :
    let s₀ := ofText .full .initial "let x = 2; x + \n".toList
    Dialect.full.IsBuiltIn ∧ s₀.Visits s₀.run.final ∧
      ⟨"x", 2, false⟩ ∈ s₀.run.final.bindings.entries ∧
      Reachable .full s₀.run.final.bindings ⟨"x", 2, false⟩ := by
  intro s₀
  have hv : ⟨"x", 2, false⟩ ∈ s₀.run.final.bindings.entries := by decide +kernel
  exact ⟨.inl rfl, visits_final s₀, hv, entries_stay_reachable (.inl rfl) (visits_final s₀) hv⟩

end Session

end Calculator
