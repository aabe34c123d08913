import Calculator.Proofs.Console.Changes

/-! # Bindings that are shared

    Bindings are asked and changed directly, by single statements and by whole
    conversations, in any order and by any number of readers. A request makes the
    changes that it asks for or none (`Bindings.Serves`): a declaration or an assignment
    its own one, a statement that of its action, a conversation those of the
    statements that it carries out.

    The changes are a log of the requests. Whatever was asked, the answers are those of
    the finite map that the log describes (`Bindings.Refines`, `Bindings.serve_refines`).
-/

namespace Calculator

/-! ## Requests -/

namespace Bindings

/-- What can be asked of bindings. -/
inductive Request where
  | declare (name : String) (value : Float) (constant : Bool)
  | assign (name : String) (value : Float)
  | get (name : String)
  | isDeclared (name : String)
  | size
  | entries
  /-- One statement, read from a text in any state. -/
  | statement (d : Dialect) (scanner : Scanner)
  /-- A conversation on what is left of a text. -/
  | conversation (c : Console.Settings) (d : Dialect) (scanner : Scanner)

/-- What is answered to a request that is not refused. -/
inductive Answer where
  /-- A declaration gives its value back. -/
  | value (v : Float)
  /-- An assignment gives nothing back. -/
  | done
  | truth (t : Bool)
  | count (n : Nat)
  | entries (es : List Binding)
  /-- The value of a statement, and the text as it was left. -/
  | evaluated (v : Float) (scanner : Scanner)
  | conversed (t : Console.Transcript)

/-- What comes of a request. -/
structure Reply where
  /-- What is answered, or why it was refused. -/
  answer : Except Fault Answer
  /-- The bindings as they were left. -/
  after : Bindings

/-- The error of a request that the bindings refuse. -/
def refusal (cause : Cause) : Fault := .rejected ⟨cause, none⟩

/-- Answers a request that asks for a change. -/
def serveChange (b : Bindings) (answer : Answer) : Except Cause Change → Reply
  | .ok change => ⟨.ok answer, b.apply change⟩
  | .error cause => ⟨.error (refusal cause), b⟩

/-- Answers a request for a value. -/
def serveValue (b : Bindings) : Except Cause Float → Reply
  | .ok v => ⟨.ok (.value v), b⟩
  | .error cause => ⟨.error (refusal cause), b⟩

/-- Answers a request to carry a statement out. -/
def serveStatement : EStateM.Result Fault Session Session.Outcome → Reply
  | .ok o s => ⟨.ok (.evaluated o.value s.scanner), s.bindings⟩
  | .error e s => ⟨.error e, s.bindings⟩

/-- Answers a request to hold a conversation. -/
def serveConversation (t : Console.Transcript) : Reply := ⟨.ok (.conversed t), t.final.bindings⟩

/-- Answers a request. -/
def serve (b : Bindings) : Request → Reply
  | .declare name value constant => b.serveChange (.value value) (b.declare name value constant)
  | .assign name value => b.serveChange .done (b.assign name value)
  | .get name => b.serveValue (b.get name)
  | .isDeclared name => ⟨.ok (.truth (b.find? name).isSome), b⟩
  | .size => ⟨.ok (.count b.entries.length), b⟩
  | .entries => ⟨.ok (.entries b.entries), b⟩
  | .statement d scanner => serveStatement (Session.statement ⟨d, scanner, b⟩)
  | .conversation c d scanner => serveConversation (Console.converse c ⟨d, scanner, b⟩)

/-- Answers one request after the other. -/
def serveAll (b : Bindings) : List Request → List Reply
  | [] => []
  | r :: rest => b.serve r :: (b.serve r).after.serveAll rest

/-- The bindings behind some replies. -/
def afterAll (b : Bindings) (replies : List Reply) : Bindings :=
  replies.foldl (fun _ reply => reply.after) b

/-! ## What requests change -/

/-- The request asks for no change. -/
def Request.isQuery : Request → Bool
  | .get _ | .isDeclared _ | .size | .entries => true
  | _ => false

/-- The request is made of the bindings themselves, and no text is read for it. -/
def Request.isDirect : Request → Bool
  | .statement _ _ | .conversation _ _ _ => false
  | _ => true

/-- The reply to a request, and the changes that are made for it. -/
inductive Serves (b : Bindings) : Request → Reply → List Change → Prop where
  | declared {name : String} {v : Float} {constant : Bool} {changes : List Change} {b' : Bindings}
      (performs : b.Performs (.declare name v constant) changes b') :
    Serves b (.declare name v constant) ⟨.ok (.value v), b'⟩ changes
  | assigned {name : String} {v : Float} {changes : List Change} {b' : Bindings}
      (performs : b.Performs (.assign name v) changes b') :
    Serves b (.assign name v) ⟨.ok .done, b'⟩ changes
  | answered {r : Request} {answer : Answer} (query : r.isQuery) : Serves b r ⟨.ok answer, b⟩ []
  /-- The tokens of a statement were read, and its action was carried out. -/
  | evaluated {d : Dialect} {scanner scanner' : Scanner} {ts : List Token} {a : Action}
      {changes : List Change} {b' : Bindings} (peeked : scanner.Peeked ts scanner')
      (sentence : Sentence d b ts a) (performs : b.Performs a changes b') :
    Serves b (.statement d scanner) ⟨.ok (.evaluated a.value scanner'), b'⟩ changes
  | conversed {c : Console.Settings} {d : Dialect} {scanner : Scanner} {t : Console.Transcript}
      {changes : List Change} (transcript : t = Console.converse c ⟨d, scanner, b⟩)
      (carries : Console.Carries c ⟨d, scanner, b⟩ changes t.final) :
    Serves b (.conversation c d scanner) ⟨.ok (.conversed t), t.final.bindings⟩ changes
  | refused {r : Request} {cause : Cause} (direct : r.isDirect) :
    Serves b r ⟨.error (refusal cause), b⟩ []
  /-- A statement was not carried out. -/
  | stopped {d : Dialect} {scanner : Scanner} {e : Fault} {s' : Session}
      (statement : Session.statement ⟨d, scanner, b⟩ = .error e s') :
    Serves b (.statement d scanner) ⟨.error e, b⟩ []

/-- The replies to one request after the other, and the changes that are made for them. -/
inductive Logs : Bindings → List Request → List Reply → List Change → Prop where
  | nil (b : Bindings) : Logs b [] [] []
  | cons {b : Bindings} {r : Request} {rs : List Request} {reply : Reply}
      {replies : List Reply} {changes log : List Change} (serves : b.Serves r reply changes)
      (rest : Logs reply.after rs replies log) :
    Logs b (r :: rs) (reply :: replies) (changes ++ log)

variable {b : Bindings} {rs : List Request} {replies : List Reply} {log : List Change}

theorem serves_statement (s : Session) :
    ∃ changes, s.bindings.Serves (.statement s.dialect s.scanner) (serveStatement s.statement)
      changes := by
  cases h : s.statement with
  | ok o s' =>
    obtain ⟨a, change, scanner, hread, hchange, rfl, rfl⟩ := Session.statement_eq_ok h
    obtain ⟨ts, hsentence, hpeeked⟩ := readStatement_ok hread
    exact ⟨_, .evaluated hpeeked hsentence (performs_of_change? hchange)⟩
  | error e s' =>
    rw [serveStatement, Session.bindings_of_statement_error h]
    exact ⟨_, .stopped h⟩

theorem serves_serve (b : Bindings) (r : Request) : ∃ changes, b.Serves r (b.serve r) changes := by
  cases r with
  | declare name v constant =>
    rw [serve]
    cases h : b.declare name v constant with
    | error cause => exact ⟨_, .refused rfl⟩
    | ok change =>
      obtain ⟨hfree, rfl⟩ := declare_eq_ok.1 h
      exact ⟨_, .declared (.declare (find?_eq_none_iff.1 hfree))⟩
  | assign name v =>
    rw [serve]
    cases h : b.assign name v with
    | error cause => exact ⟨_, .refused rfl⟩
    | ok change =>
      obtain ⟨old, hfound, rfl⟩ := assign_eq_ok.1 h
      have hchange : b.change? (.assign name v) = .ok (some (.assigned name v old)) :=
        change?_assign_eq_ok.2 ⟨old, hfound, rfl⟩
      exact ⟨_, .assigned (performs_of_change? hchange)⟩
  | get name =>
    rw [serve]
    cases b.get name with
    | error cause => exact ⟨_, .refused rfl⟩
    | ok v => exact ⟨_, .answered rfl⟩
  | isDeclared | size | entries => exact ⟨_, .answered rfl⟩
  | statement d scanner => exact serves_statement ⟨d, scanner, b⟩
  | conversation c d scanner =>
    exact ⟨_, .conversed rfl (Console.carries_resume c ⟨d, scanner, b⟩)⟩

theorem logs_serveAll (b : Bindings) (rs : List Request) :
    ∃ log, Logs b rs (b.serveAll rs) log := by
  induction rs generalizing b with
  | nil => exact ⟨_, .nil b⟩
  | cons r rest ih =>
    obtain ⟨changes, hserves⟩ := serves_serve b r
    obtain ⟨log, hrest⟩ := ih (b.serve r).after
    exact ⟨_, .cons hserves hrest⟩

theorem Serves.history {r : Request} {reply : Reply} (h : b.Serves r reply log) :
    History b log reply.after := by
  cases h with
  | declared performs | assigned performs | evaluated _ _ performs => exact performs.history
  | conversed _ carries => exact carries.history
  | answered | refused | stopped => exact .nil b

/-- A request that is refused changes nothing. -/
theorem Serves.unchanged {r : Request} {reply : Reply} {e : Fault} (h : b.Serves r reply log)
    (hrefused : reply.answer = .error e) : reply.after = b := by
  cases h with
  | refused | stopped => rfl
  | declared | assigned | answered | evaluated | conversed => cases hrefused

theorem Logs.history (h : Logs b rs replies log) : History b log (b.afterAll replies) := by
  induction h with
  | nil b => exact .nil b
  | cons serves _ ih => exact serves.history.trans ih

/-! ## A finite map -/

/-- The bindings answer as the finite map that the changes `log` describe. -/
structure Refines (log : List Change) (b : Bindings) : Prop where
  /-- No two entries have the same name. -/
  nodup : b.names.Nodup
  /-- The entries stand in the order of declaration, with the constness they were
      declared with. -/
  signature : b.signature = declarations log
  /-- A name has the value that was given to it last. -/
  get : ∀ name v, (b.serve (.get name)).answer = .ok (.value v) ↔ latest log name = some v
  /-- A name has no value only if it was never declared. -/
  get_fails : ∀ name e, (b.serve (.get name)).answer = .error e ↔
    name ∉ declaredNames log ∧ e = refusal (.undefinedName name)
  /-- A constant has the value that it was declared with. -/
  constant : ∀ name v, .declared name v true ∈ log →
    (b.serve (.get name)).answer = .ok (.value v)
  isDeclared : ∀ name, (b.serve (.isDeclared name)).answer =
    .ok (.truth (decide (name ∈ declaredNames log)))
  size : (b.serve .size).answer = .ok (.count (declarations log).length)
  /-- Every entry has the value that was given to its name last. -/
  entries : ∃ es, (b.serve .entries).answer = .ok (.entries es) ∧
    es.map (fun v => (v.name, v.constant)) = declarations log ∧
    ∀ v ∈ es, latest log v.name = some v.value
  /-- Only a name that is there cannot be declared. -/
  declare_fails : ∀ name v constant e, (b.serve (.declare name v constant)).answer = .error e ↔
    name ∈ declaredNames log ∧ e = refusal (.alreadyDeclared name)
  /-- Only a name that is not there and a constant cannot be assigned to. -/
  assign_fails : ∀ name v e, (b.serve (.assign name v)).answer = .error e ↔
    name ∉ declaredNames log ∧ e = refusal (.undefinedName name) ∨
      (name, true) ∈ declarations log ∧ e = refusal (.constantAssigned name)

theorem answer_serveChange_eq_error {answer : Answer} {change : Except Cause Change} {e : Fault} :
    (b.serveChange answer change).answer = .error e ↔
      ∃ cause, change = .error cause ∧ e = refusal cause := by
  cases change <;> simp [serveChange, eq_comm]

theorem answer_serveValue_eq_ok {value : Except Cause Float} {v : Float} :
    (b.serveValue value).answer = .ok (.value v) ↔ value = .ok v := by
  cases value <;> simp [serveValue]

theorem answer_serveValue_eq_error {value : Except Cause Float} {e : Fault} :
    (b.serveValue value).answer = .error e ↔
      ∃ cause, value = .error cause ∧ e = refusal cause := by
  cases value <;> simp [serveValue, eq_comm]

theorem History.refines (h : History {} log b) : Refines log b := by
  have hnodup := h.nodup (by simp [names])
  have hsignature : b.signature = declarations log := h.signature
  have hnames (name : String) : name ∈ declaredNames log ↔ (b.find? name).isSome := by
    rw [declaredNames, ← hsignature, ← names_eq, find?_isSome_iff]
  have hnone (name : String) : name ∉ declaredNames log ↔ b.find? name = none := by
    rw [hnames, Option.not_isSome_iff_eq_none]
  have hget (name : String) (v : Float) :
      (b.serve (.get name)).answer = .ok (.value v) ↔ (b.find? name).map (·.value) = some v := by
    rw [serve, answer_serveValue_eq_ok, get_eq_ok]
  exact {
    nodup := hnodup
    signature := hsignature
    get := fun name v => by rw [hget, h.value]
    get_fails := fun name e => by
      simp [serve, answer_serveValue_eq_error, get_eq_error, hnone, and_assoc]
    constant := fun name v hmem => by rw [hget, h.find?_of_declared hmem]; rfl
    isDeclared := fun name => by simp [serve, hnames]
    size := by rw [← hsignature]; simp [serve, Bindings.signature]
    entries := by
      refine ⟨b.entries, rfl, hsignature, fun v hv => ?_⟩
      rw [← h.value, find?_of_mem hnodup hv]
      rfl
    declare_fails := fun name v constant e => by
      simp [serve, answer_serveChange_eq_error, declare_eq_error, hnames, and_assoc]
    assign_fails := fun name v e => by
      rw [hnone, ← hsignature, ← find?_constant_iff hnodup]
      simp [serve, answer_serveChange_eq_error, assign_eq_error, or_and_right, exists_or,
        and_assoc] }

/-- The bindings that a session starts with, with the predefined constants or without. -/
def start (constants : Bool) : Bindings := if constants then initial else {}

/-- The changes that lead to them. -/
def startChanges (constants : Bool) : List Change := if constants then predefinedChanges else []

theorem history_start (constants : Bool) :
    History {} (startChanges constants) (start constants) := by
  cases constants with
  | false => exact .nil {}
  | true => exact .initial

/-- Whatever was asked of bindings from the start on, the requests that were not refused
    make a log of changes, and the bindings answer as the finite map that it
    describes. Whatever is asked of them then, their names stay where they are,
    their constants keep their values, and a request that is refused changes
    nothing. -/
theorem serve_refines (constants : Bool) (first more : List Request) :
    let replies := (start constants).serveAll first
    let b := (start constants).afterAll replies
    let b' := b.afterAll (b.serveAll more)
    (∃ log, Logs (start constants) first replies log) ∧
      (∀ log, Logs (start constants) first replies log →
        Refines (startChanges constants ++ log) b) ∧
      b.signature <+: b'.signature ∧
      (∀ name v, b.find? name = some ⟨name, v, true⟩ → b'.find? name = some ⟨name, v, true⟩) ∧
      ∀ r e, (b.serve r).answer = .error e → (b.serve r).after = b := by
  intro replies b b'
  obtain ⟨log, hmore⟩ := logs_serveAll b more
  refine ⟨logs_serveAll (start constants) first, ?_, ⟨_, hmore.history.signature.symm⟩, ?_, ?_⟩
  · intro log hlog
    exact ((history_start constants).trans hlog.history).refines
  · intro name v hfind
    exact hmore.history.find?_of_constant hfind rfl
  · intro r e hrefused
    obtain ⟨changes, hserves⟩ := serves_serve b r
    exact hserves.unchanged hrefused

/-- The second declaration of a name is refused, and its value does not count. -/
example :
    (({} : Bindings).serveAll
      [.declare "x" 1 false, .assign "x" 2, .declare "x" 0 true, .get "x"]).map (·.answer) =
    [.ok (.value 1), .ok .done, .error (refusal (.alreadyDeclared "x")), .ok (.value 2)] := rfl

end Bindings

end Calculator
