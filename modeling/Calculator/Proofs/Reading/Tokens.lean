import Calculator.Expression

/-! # The tokens that come next

    `s.Gives ts s'` says that the next tokens of the scanner `s` are `ts`, in
    this order and without a rejected character between them, and that `s'` is
    the scanner behind them. The readers see nothing else of the text.

    A token that was put back is the next one again: `s.hold t` is the scanner
    with `t` in its slot, and after it was read from `s` it gives just `t` and
    then what `s` gives (`get_hold`).
-/

namespace Calculator

namespace Scanner

/-- The scanner with a token in its slot. -/
def hold (t : Token) (s : Scanner) : Scanner := { s with slot := some t, last := none }

/-- The next tokens are `ts`, and then the scanner is `s'`. -/
def Gives : Scanner → List Token → Scanner → Prop
  | s, [], s' => s' = s
  | s, t :: ts, s' => ∃ s₁, s.get = (.ok t, s₁) ∧ s₁.Gives ts s'

variable {s s₁ s' : Scanner} {t : Token} {ts us : List Token}

@[simp] theorem gives_nil : s.Gives [] s' ↔ s' = s := Iff.rfl

theorem gives_cons : s.Gives (t :: ts) s' ↔ ∃ s₁, s.get = (.ok t, s₁) ∧ s₁.Gives ts s' := Iff.rfl

@[simp] theorem gives_singleton : s.Gives [t] s' ↔ s.get = (.ok t, s') := by
  simp [gives_cons]

theorem gives_append : s.Gives (ts ++ us) s' ↔ ∃ s₁, s.Gives ts s₁ ∧ s₁.Gives us s' := by
  induction ts generalizing s with
  | nil => simp
  | cons t ts ih =>
    simp only [List.cons_append, gives_cons, ih]
    constructor
    · rintro ⟨s₁, ht, s₂, hts, hus⟩
      exact ⟨s₂, ⟨s₁, ht, hts⟩, hus⟩
    · rintro ⟨s₂, ⟨s₁, ht, hts⟩, hus⟩
      exact ⟨s₁, ht, s₂, hts, hus⟩

/-- Only the next token of a scanner matters for the tokens that it gives. -/
theorem Gives.of_get_eq {r : Scanner} (h : s.Gives ts s') (hts : ts ≠ []) (hget : r.get = s.get) :
    r.Gives ts s' := by
  cases ts with
  | nil => exact absurd rfl hts
  | cons t ts =>
    obtain ⟨s₁, ht, hrest⟩ := h
    exact ⟨s₁, hget.trans ht, hrest⟩

/-- After a token was handed out the slot is empty and the token is the last
    one. -/
theorem slot_last_of_get (h : s.get = (.ok t, s')) : s'.slot = none ∧ s'.last = some t := by
  unfold get at h
  split at h
  · -- the token was in the slot
    simp only [Prod.mk.injEq, Except.ok.injEq] at h
    obtain ⟨rfl, rfl⟩ := h
    exact ⟨rfl, rfl⟩
  · next hslot =>
    -- the token was scanned
    split at h
    · simp only [Prod.mk.injEq, Except.ok.injEq] at h
      obtain ⟨rfl, rfl⟩ := h
      exact ⟨hslot, rfl⟩
    · simp at h

/-- The last token, put back, is the next one. -/
theorem get_hold_of_last (hslot : s.slot = none) (hlast : s.last = some t) :
    (s.hold t).get = (.ok t, s) := by
  obtain ⟨cursor, keywords, slot, last⟩ := s
  cases hslot
  cases hlast
  rfl

/-- A token that was put back is the next one. -/
theorem get_hold (h : s.get = (.ok t, s')) : (s'.hold t).get = (.ok t, s') :=
  get_hold_of_last (slot_last_of_get h).1 (slot_last_of_get h).2

end Scanner

namespace Reading

open Scanner

variable {α β : Type} {s s₁ s' : Scanner} {t : Token}

theorem next_eq_ok : next s = .ok t s' ↔ s.get = (.ok t, s') := by
  unfold next
  split <;> simp_all

theorem putBack_of_slot (h : s.slot = none) : putBack t s = .ok () (s.hold t) := by
  obtain ⟨cursor, keywords, slot, last⟩ := s
  cases h
  rfl

/-- A token that was just handed out can be put back. -/
theorem putBack_of_get (h : s.get = (.ok t, s')) : putBack t s' = .ok () (s'.hold t) :=
  putBack_of_slot (slot_last_of_get h).1

/-! ## Sequences -/

theorem bind_of_ok {m : Reading α} {f : α → Reading β} {a : α} (h : m s = .ok a s₁) :
    (m >>= f) s = f a s₁ := by
  simp only [Bind.bind, EStateM.bind, h]

theorem bind_of_error {m : Reading α} {f : α → Reading β} {e : Fault} (h : m s = .error e s₁) :
    (m >>= f) s = .error e s₁ := by
  simp only [Bind.bind, EStateM.bind, h]

/-- A sequence that yields a value has a first part that yields one. -/
theorem bind_eq_ok {m : Reading α} {f : α → Reading β} {x : β} :
    (m >>= f) s = .ok x s' ↔ ∃ a s₁, m s = .ok a s₁ ∧ f a s₁ = .ok x s' := by
  simp only [Bind.bind, EStateM.bind]
  cases hm : m s with
  | ok a s₁ => simp [and_assoc]
  | error e s₁ => simp

/-- A sequence that is stopped is stopped in its first part or in its second. -/
theorem bind_eq_error {m : Reading α} {f : α → Reading β} {e : Fault} :
    (m >>= f) s = .error e s' ↔
      m s = .error e s' ∨ ∃ a s₁, m s = .ok a s₁ ∧ f a s₁ = .error e s' := by
  simp only [Bind.bind, EStateM.bind]
  cases hm : m s with
  | ok a s₁ => simp [and_assoc]
  | error e s₁ => simp

theorem next_bind {f : Token → Reading β} (h : s.get = (.ok t, s₁)) :
    (next >>= f) s = f t s₁ :=
  bind_of_ok (next_eq_ok.2 h)

theorem putBack_bind {f : Unit → Reading β} (h : s.get = (.ok t, s₁)) :
    (putBack t >>= f) s₁ = f () (s₁.hold t) :=
  bind_of_ok (putBack_of_get h)

/-- Only a token in the slot keeps another one from being put back. -/
theorem putBack_pure_eq_error {x : α} {e : Fault}
    (h : (putBack t >>= fun _ => (pure x : Reading α)) s = .error e s') :
    ∃ held, e = .slotOccupied held t := by
  obtain h | ⟨_, s₁, -, h⟩ := bind_eq_error.1 h
  · unfold putBack at h
    split at h
    · cases h
    · cases h
      exact ⟨_, rfl⟩
  · cases h

/-! ## Single tokens -/

theorem expect_of_get {kind : Token.Kind} {cause : Cause} (h : s.get = (.ok t, s₁))
    (hk : t.kind = kind) : expect kind cause s = .ok t s₁ := by
  rw [expect, next_bind h, if_pos hk]
  rfl

theorem expect_eq_ok {kind : Token.Kind} {cause : Cause} :
    expect kind cause s = .ok t s' ↔ s.get = (.ok t, s') ∧ t.kind = kind := by
  constructor
  · intro h
    obtain ⟨u, s₁, hu, h⟩ := bind_eq_ok.1 h
    rw [next_eq_ok] at hu
    split at h
    · next hk =>
      cases h
      exact ⟨hu, hk⟩
    · cases h
  · rintro ⟨h, hk⟩
    exact expect_of_get h hk

theorem expectClosing_of_get {kind : Token.Kind} {bracket : Char}
    (hb : kind.closingBracket? = some bracket) (h : s.get = (.ok t, s₁)) (hk : t.kind = kind) :
    expectClosing kind s = .ok () s₁ := by
  unfold expectClosing
  rw [hb]
  exact bind_of_ok (expect_of_get h hk)

theorem expectClosing_eq_ok {kind : Token.Kind} :
    expectClosing kind s = .ok () s' ↔
      kind.closingBracket?.isSome ∧ ∃ t, s.get = (.ok t, s') ∧ t.kind = kind := by
  unfold expectClosing
  cases hb : kind.closingBracket? with
  | none => exact iff_of_false nofun (fun h => nomatch h.1)
  | some bracket =>
    simp only [bind_eq_ok, expect_eq_ok, Option.isSome_some, true_and]
    constructor
    · rintro ⟨t, s₁, h, hp⟩
      cases hp
      exact ⟨t, h⟩
    · rintro ⟨t, h⟩
      exact ⟨t, s', h, rfl⟩

theorem located_eq_ok {r : Except Cause Float} {x : Float} :
    located t r s = .ok x s' ↔ r = .ok x ∧ s' = s := by
  cases r with
  | ok y =>
    simp only [located, Except.ok.injEq]
    constructor
    · intro h
      cases h
      exact ⟨rfl, rfl⟩
    · rintro ⟨rfl, rfl⟩
      rfl
  | error cause => simp [located, rejectAt]

end Reading

end Calculator
