import Calculator.Proofs.Bindings.Changes

/-! # Bindings and their history

    Bindings are what their changes have made of them (`Bindings.History`). So
    they stand for a finite map: a name has the value that the last change of it
    gave it (`History.value`), the names are those that were declared, in this
    order (`History.signature`), and a constant has the value that it was declared
    with (`History.find?_of_declared`).

    An action makes the change that it says and no other one
    (`Bindings.Performs`).
-/

namespace Calculator

namespace Bindings

variable {b b₁ b₂ : Bindings} {log log' : List Change} {name : String}

/-! ## Histories -/

/-- The changes that lead from some bindings to others, each of them allowed
    where it is made. -/
inductive History : Bindings → List Change → Bindings → Prop where
  | nil (b : Bindings) : History b [] b
  | snoc {b b' : Bindings} {log : List Change} {change : Change} (h : History b log b')
    (allowed : b'.Allows change) : History b (log ++ [change]) (b'.apply change)

namespace History

theorem single {change : Change} (allowed : b.Allows change) :
    History b [change] (b.apply change) :=
  (History.nil b).snoc allowed

theorem trans (h : History b log b₁) (h' : History b₁ log' b₂) : History b (log ++ log') b₂ := by
  induction h' with
  | nil => simpa using h
  | snoc _ allowed ih =>
    rw [← List.append_assoc]
    exact ih.snoc allowed

/-- Distinct names that are free can be declared as constants one after the
    other. -/
theorem constants {names : List (String × Float)} (hnodup : (names.map Prod.fst).Nodup)
    (hfree : ∀ p ∈ names, b.find? p.1 = none) :
    History b (names.map fun (name, value) => .declared name value true)
      ((names.map fun (name, value) => Change.declared name value true).foldl apply b) := by
  induction names generalizing b with
  | nil => exact .nil b
  | cons p names ih =>
    obtain ⟨name, value⟩ := p
    have free : b.find? name = none := hfree _ List.mem_cons_self
    obtain ⟨hfresh, hnodup⟩ : name ∉ names.map Prod.fst ∧ (names.map Prod.fst).Nodup :=
      List.nodup_cons.1 hnodup
    refine (single (.declared free)).trans (ih hnodup fun q hq => ?_)
    -- the names that are still to come are free also after this one
    have hne : q.1 ≠ name := by
      intro heq
      rw [← heq] at hfresh
      exact hfresh (List.mem_map_of_mem hq)
    rw [find?_declared free, if_neg hne]
    exact hfree q (List.mem_cons_of_mem _ hq)

theorem initial : History {} predefinedChanges initial :=
  constants (by decide) fun _ _ => rfl

theorem nodup (h : History b log b₁) (hnodup : b.names.Nodup) : b₁.names.Nodup := by
  induction h with
  | nil => exact hnodup
  | snoc _ allowed ih => exact nodup_apply allowed ih

/-- A constant keeps its value. -/
theorem find?_of_constant (h : History b log b₁) {v : Binding} (hfind : b.find? name = some v)
    (hconstant : v.constant = true) : b₁.find? name = some v := by
  induction h with
  | nil => exact hfind
  | snoc _ allowed ih => exact find?_apply_of_constant allowed ih hconstant

/-- The changes lead to the bindings when they are made again. -/
theorem replay (h : History b log b₁) : log.foldl apply b = b₁ := by
  induction h with
  | nil => rfl
  | @snoc b' log change _ _ ih =>
    rw [List.foldl_append, ih]
    rfl

end History

/-! ## What an action does -/

/-- What an action makes of the bindings, and the changes that are reported of it. A
    value that is assigned replaces the one in front of it. -/
inductive Performs (b : Bindings) : Action → List Change → Bindings → Prop where
  | print {v : Float} : Performs b (.print v) [] b
  | declare {name : String} {v : Float} {constant : Bool} (free : name ∉ b.names) :
    Performs b (.declare name v constant) [.declared name v constant]
      ⟨b.entries ++ [⟨name, v, constant⟩]⟩
  | assign {name : String} {v old : Float} {before after : List Binding}
      (entries : b.entries = before ++ ⟨name, old, false⟩ :: after)
      (first : ∀ u ∈ before, u.name ≠ name) :
    Performs b (.assign name v) [.assigned name v old] ⟨before ++ ⟨name, v, false⟩ :: after⟩

theorem performs_of_change? {a : Action} {change : Option Change}
    (h : b.change? a = .ok change) : b.Performs a change.toList (change.elim b b.apply) := by
  cases a with
  | print v =>
    cases h
    exact .print
  | declare name v constant =>
    obtain ⟨hfree, rfl⟩ := change?_declare_eq_ok.1 h
    exact .declare (find?_eq_none_iff.1 hfree)
  | assign name v =>
    obtain ⟨old, hfound, rfl⟩ := change?_assign_eq_ok.1 h
    obtain ⟨-, before, after, hentries, hbefore⟩ := find?_eq_some_iff.1 hfound
    show b.Performs _ _ (b.replace name v)
    rw [replace, replaceFirst_of_find? hentries hbefore]
    exact .assign hentries hbefore

/-- The changes of an action are allowed. -/
theorem Performs.history {a : Action} {changes : List Change} (h : b.Performs a changes b₁) :
    History b changes b₁ := by
  cases h with
  | print => exact .nil b
  | declare free => exact .single (.declared (find?_eq_none_iff.2 free))
  | @assign name v old before after entries first =>
    have hfound : b.find? name = some ⟨name, old, false⟩ :=
      find?_eq_some_iff.2 ⟨rfl, before, after, entries, first⟩
    have happly : b.apply (.assigned name v old) = ⟨before ++ ⟨name, v, false⟩ :: after⟩ := by
      rw [apply, replace, replaceFirst_of_find? entries first]
    rw [← happly]
    exact .single (.assigned hfound)

/-! ## What a history says -/

/-- The names that were declared, with their constness. -/
def declarations (log : List Change) : List (String × Bool) := log.filterMap Change.declaration?

/-- The value that the last change of a name gave it. -/
def latest (log : List Change) (name : String) : Option Float :=
  (log.reverse.find? (·.name == name)).map Change.value

theorem declarations_append : declarations (log ++ log') = declarations log ++ declarations log' :=
  List.filterMap_append

theorem latest_snoc {change : Change} :
    latest (log ++ [change]) name =
      if name = change.name then some change.value else latest log name := by
  by_cases hname : name = change.name
  · simp [latest, hname]
  · have hne : (change.name == name) = false := by simpa using Ne.symm hname
    simp [latest, hname, hne]

namespace History

/-- The names stay where they are, and the declared ones come behind them. -/
theorem signature (h : History b log b₁) : b₁.signature = b.signature ++ declarations log := by
  induction h with
  | nil => simp [declarations]
  | @snoc _ _ change _ allowed ih =>
    rw [signature_apply allowed, ih, declarations_append, List.append_assoc]
    cases hdeclaration : change.declaration? <;> simp [declarations, hdeclaration]

/-- A name has the value of the last change of it. -/
theorem value (h : History {} log b) :
    (b.find? name).map (·.value) = latest log name := by
  induction h with
  | nil => rfl
  | snoc _ allowed ih => rw [value_apply allowed, latest_snoc, ih]

/-- A constant has the value that it was declared with. -/
theorem find?_of_declared (h : History b log b₁) {v : Float}
    (hmem : .declared name v true ∈ log) : b₁.find? name = some ⟨name, v, true⟩ := by
  induction h with
  | nil => cases hmem
  | snoc _ allowed ih =>
    rcases List.mem_append.1 hmem with hmem | hmem
    · exact find?_apply_of_constant allowed (ih hmem) rfl
    · obtain rfl := List.mem_singleton.1 hmem
      cases allowed with
      | declared free => rw [find?_declared free, if_pos rfl]

end History

/-! ## A finite map -/

/-- The names that were declared. -/
def declaredNames (log : List Change) : List String := (declarations log).map Prod.fst

/-- Where no name is declared twice, every entry is found. -/
theorem find?_of_mem (hnodup : b.names.Nodup) {v : Binding} (hv : v ∈ b.entries) :
    b.find? v.name = some v := by
  obtain ⟨before, after, hentries⟩ := List.append_of_mem hv
  refine find?_eq_some_iff.2 ⟨rfl, before, after, hentries, fun u hu huname => ?_⟩
  -- an entry of that name further in front would be a second one
  rw [names, hentries, List.map_append, List.nodup_append] at hnodup
  exact hnodup.2.2 _ (List.mem_map_of_mem hu) _ (by simp) huname

/-- A name is found as a constant where it is one of the names. -/
theorem find?_constant_iff (hnodup : b.names.Nodup) :
    (∃ v, b.find? name = some ⟨name, v, true⟩) ↔ (name, true) ∈ b.signature := by
  constructor
  · rintro ⟨v, hfind⟩
    exact List.mem_map.2 ⟨_, List.mem_of_find?_eq_some hfind, rfl⟩
  · intro hmem
    obtain ⟨⟨n, v, constant⟩, hv, heq⟩ := List.mem_map.1 hmem
    cases heq
    exact ⟨v, find?_of_mem hnodup hv⟩

end Bindings

end Calculator
