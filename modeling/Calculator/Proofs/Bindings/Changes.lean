import Calculator.Session

/-! # What a change does to the bindings

    Two changes are allowed: a name that is free is declared, and a variable is
    assigned to (`Bindings.Allows`). A name is looked up from the front, so a
    change shows in the look-up of its own name and of no other one
    (`find?_declared`, `find?_assigned`). Names keep their order and their
    constness, and a constant keeps its value.
-/

namespace Calculator

namespace Change

/-- The name that is declared or assigned to. -/
def name : Change → String
  | declared name _ _ | assigned name _ _ => name

/-- The value that the name gets. -/
def value : Change → Float
  | declared _ value _ | assigned _ value _ => value

/-- The name that is declared, with its constness. -/
def declaration? : Change → Option (String × Bool)
  | declared name _ constant => some (name, constant)
  | assigned _ _ _ => none

end Change

namespace Bindings

variable {b : Bindings} {name other : String} {value old : Float} {constant : Bool}

/-! ## Looking up -/

/-- What is found is the first entry of the name. -/
theorem find?_eq_some_iff {v : Binding} :
    b.find? name = some v ↔
      v.name = name ∧ ∃ before after, b.entries = before ++ v :: after ∧
        ∀ u ∈ before, u.name ≠ name := by
  simp [find?, List.find?_eq_some_iff_append]

theorem name_of_find? {v : Binding} (h : b.find? name = some v) : v.name = name :=
  (find?_eq_some_iff.1 h).1

theorem get_eq_ok : b.get name = .ok value ↔ (b.find? name).map (·.value) = some value := by
  unfold get
  cases b.find? name <;> simp

theorem get_eq_error {cause : Cause} :
    b.get name = .error cause ↔ b.find? name = none ∧ cause = .undefinedName name := by
  unfold get
  cases b.find? name <;> simp [eq_comm]

/-! ## What is allowed -/

/-- The change can be made to the bindings. -/
inductive Allows (b : Bindings) : Change → Prop where
  | declared {name : String} {value : Float} {constant : Bool} (free : b.find? name = none) :
    Allows b (.declared name value constant)
  | assigned {name : String} {value old : Float} (found : b.find? name = some ⟨name, old, false⟩) :
    Allows b (.assigned name value old)

theorem declare_eq_ok {change : Change} :
    b.declare name value constant = .ok change ↔
      b.find? name = none ∧ change = .declared name value constant := by
  unfold declare
  cases b.find? name <;> simp [eq_comm]

theorem declare_eq_error {cause : Cause} :
    b.declare name value constant = .error cause ↔
      (b.find? name).isSome ∧ cause = .alreadyDeclared name := by
  unfold declare
  cases b.find? name <;> simp [eq_comm]

theorem assign_eq_ok {change : Change} :
    b.assign name value = .ok change ↔
      ∃ old, b.find? name = some ⟨name, old, false⟩ ∧ change = .assigned name value old := by
  unfold assign
  cases hfind : b.find? name with
  | none => simp
  | some v =>
    obtain ⟨n, x, constant⟩ := v
    obtain rfl : n = name := name_of_find? hfind
    cases constant <;> simp [eq_comm]

theorem assign_eq_error {cause : Cause} :
    b.assign name value = .error cause ↔
      b.find? name = none ∧ cause = .undefinedName name ∨
        ∃ old, b.find? name = some ⟨name, old, true⟩ ∧ cause = .constantAssigned name := by
  unfold assign
  cases hfind : b.find? name with
  | none => simp [eq_comm]
  | some v =>
    obtain ⟨n, x, constant⟩ := v
    obtain rfl : n = name := name_of_find? hfind
    cases constant <;> simp [eq_comm]

theorem map_some_eq_ok {α : Type} {r : Except Cause α} {o : Option α} :
    some <$> r = .ok o ↔ ∃ a, r = .ok a ∧ o = some a := by
  cases r with
  | error cause => simp [Functor.map, Except.map]
  | ok a =>
    simp only [Functor.map, Except.map, Except.ok.injEq, exists_eq_left']
    exact eq_comm

theorem map_some_eq_error {α : Type} {r : Except Cause α} {cause : Cause} :
    some <$> r = .error cause ↔ r = .error cause := by
  cases r <;> simp [Functor.map, Except.map]

theorem change?_declare_eq_ok {change : Option Change} :
    b.change? (.declare name value constant) = .ok change ↔
      b.find? name = none ∧ change = some (.declared name value constant) := by
  simp [change?, map_some_eq_ok, declare_eq_ok, and_assoc]

theorem change?_assign_eq_ok {change : Option Change} :
    b.change? (.assign name value) = .ok change ↔
      ∃ old, b.find? name = some ⟨name, old, false⟩ ∧
        change = some (.assigned name value old) := by
  simp only [change?, map_some_eq_ok, assign_eq_ok]
  constructor
  · rintro ⟨_, ⟨old, hfound, rfl⟩, rfl⟩
    exact ⟨old, hfound, rfl⟩
  · rintro ⟨old, hfound, rfl⟩
    exact ⟨_, ⟨old, hfound, rfl⟩, rfl⟩

theorem change?_declare_eq_error {cause : Cause} :
    b.change? (.declare name value constant) = .error cause ↔
      (b.find? name).isSome ∧ cause = .alreadyDeclared name := by
  rw [change?, map_some_eq_error, declare_eq_error]

theorem change?_assign_eq_error {cause : Cause} :
    b.change? (.assign name value) = .error cause ↔
      b.find? name = none ∧ cause = .undefinedName name ∨
        ∃ old, b.find? name = some ⟨name, old, true⟩ ∧ cause = .constantAssigned name := by
  rw [change?, map_some_eq_error, assign_eq_error]

/-- An action makes no change or an allowed one. -/
theorem allows_of_change? {a : Action} {change : Change} (h : b.change? a = .ok (some change)) :
    b.Allows change := by
  cases a with
  | print v => cases h
  | declare name v constant =>
    obtain ⟨hfree, hchange⟩ := change?_declare_eq_ok.1 h
    cases hchange
    exact .declared hfree
  | assign name v =>
    obtain ⟨old, hfound, hchange⟩ := change?_assign_eq_ok.1 h
    cases hchange
    exact .assigned hfound

/-! ## One change -/

theorem replaceFirst_of_find? {entries before after : List Binding}
    (hentries : entries = before ++ ⟨name, old, constant⟩ :: after)
    (hbefore : ∀ u ∈ before, u.name ≠ name) :
    replaceFirst name value entries = before ++ ⟨name, value, constant⟩ :: after := by
  subst hentries
  induction before with
  | nil => simp [replaceFirst]
  | cons u before ih =>
    have hu : (u.name == name) = false := by simpa using hbefore u (by simp)
    rw [List.cons_append, replaceFirst, hu]
    simp only [Bool.false_eq_true, if_false, List.cons_append]
    rw [ih fun w hw => hbefore w (by simp [hw])]

/-- A declared name is found where it was free, and no other look-up changes. -/
theorem find?_declared (free : b.find? name = none) :
    (b.apply (.declared name value constant)).find? other =
      if other = name then some ⟨name, value, constant⟩ else b.find? other := by
  unfold find? at free ⊢
  rw [apply, List.find?_append]
  by_cases hname : other = name
  · subst hname
    simp [free]
  · have hne : (name == other) = false := by simpa using Ne.symm hname
    simp [hname, hne]

/-- An assigned value is found with its name, and no other look-up changes. -/
theorem find?_assigned (found : b.find? name = some ⟨name, old, false⟩) :
    (b.apply (.assigned name value old)).find? other =
      if other = name then some ⟨name, value, false⟩ else b.find? other := by
  obtain ⟨-, before, after, hentries, hbefore⟩ := find?_eq_some_iff.1 found
  have happly : (b.apply (.assigned name value old)).entries =
      before ++ ⟨name, value, false⟩ :: after := replaceFirst_of_find? hentries hbefore
  unfold find?
  rw [happly, hentries, List.find?_append, List.find?_append]
  by_cases hname : other = name
  · -- No entry in front has the name, so the one that was replaced is found.
    subst hname
    have hnone : before.find? (·.name == other) = none := by simpa using hbefore
    simp [hnone]
  · have hne : (name == other) = false := by simpa using Ne.symm hname
    simp [hname, hne]

/-- A constant keeps its value. -/
theorem find?_apply_of_constant {change : Change} (h : b.Allows change) {v : Binding}
    (hfind : b.find? name = some v) (hconstant : v.constant = true) :
    (b.apply change).find? name = some v := by
  cases h with
  | @declared declared _ _ free =>
    have hne : name ≠ declared := by
      rintro rfl
      rw [free] at hfind
      cases hfind
    rw [find?_declared free, if_neg hne, hfind]
  | @assigned assigned _ _ found =>
    -- what is assigned to is found as a variable
    have hne : name ≠ assigned := by
      rintro rfl
      rw [found] at hfind
      cases hfind
      cases hconstant
    rw [find?_assigned found, if_neg hne, hfind]

/-- A change gives its value to its name, and no other name gets or loses one. -/
theorem value_apply {change : Change} (h : b.Allows change) :
    ((b.apply change).find? other).map (·.value) =
      if other = change.name then some change.value else (b.find? other).map (·.value) := by
  cases h with
  | declared free =>
    rw [find?_declared free, apply_ite (Option.map _)]
    rfl
  | assigned found =>
    rw [find?_assigned found, apply_ite (Option.map _)]
    rfl

/-! ## Names and constness -/

/-- The names with their constness, in the order of declaration. -/
def signature (b : Bindings) : List (String × Bool) := b.entries.map fun v => (v.name, v.constant)

/-- Only a declaration adds to the names. -/
theorem signature_apply {change : Change} (h : b.Allows change) :
    (b.apply change).signature = b.signature ++ change.declaration?.toList := by
  cases h with
  | declared free => simp [signature, apply, Change.declaration?]
  | assigned found =>
    obtain ⟨-, before, after, hentries, hbefore⟩ := find?_eq_some_iff.1 found
    rw [signature, apply, replace, replaceFirst_of_find? hentries hbefore, signature, hentries]
    simp [Change.declaration?]

/-- The names. -/
def names (b : Bindings) : List String := b.entries.map (·.name)

theorem names_eq (b : Bindings) : b.names = b.signature.map Prod.fst := by
  simp [names, signature]

theorem find?_isSome_iff : (b.find? name).isSome ↔ name ∈ b.names := by
  simp [find?, names]

theorem find?_eq_none_iff : b.find? name = none ↔ name ∉ b.names := by
  rw [← find?_isSome_iff, Option.not_isSome_iff_eq_none]

/-- No name is declared twice. -/
theorem nodup_apply {change : Change} (h : b.Allows change) (hnodup : b.names.Nodup) :
    (b.apply change).names.Nodup := by
  rw [names_eq, signature_apply h, List.map_append, ← names_eq]
  cases h with
  | @declared name _ _ free =>
    have hfresh : name ∉ b.names := by
      rw [← find?_isSome_iff, free]
      exact Bool.false_ne_true
    exact List.nodup_append.2 ⟨hnodup, by simp [Change.declaration?], by
      simpa [Change.declaration?] using fun n hn (heq : n = name) => hfresh (heq ▸ hn)⟩
  | assigned found => simpa [Change.declaration?] using hnodup

end Bindings

end Calculator
