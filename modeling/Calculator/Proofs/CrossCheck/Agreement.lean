import Calculator.CrossCheck.Generator
import Calculator.Proofs.Binary64.Remainder
import Calculator.Proofs.CrossCheck.Formula
import Calculator.Proofs.CrossCheck.Notation

/-! # The two evaluations agree

    A sample has two values: the strict one of its formula and the one that the
    calculator finds. Where the strict one is a double, the other is the same
    one, unless the remainder of a NaN by zero was taken on the way: the bracketed
    notation goes on with a NaN there, and the calculator does not
    (`Sample.outcomes`). That is the only disagreement (`faithful_sample`).
-/

namespace Calculator.CrossCheck

open Scanner

/-! ## What both evaluations come to -/

/-- What the strict evaluation and the calculator can come to, if `nan` says
    whether the remainder of a NaN by zero was taken. -/
inductive Outcomes : Except Breakdown Float → Except Cause Float → Prop → Prop where
  /-- Both find the same double. -/
  | same {v : Float} {nan : Prop} (not_nan : ¬ nan) : Outcomes (.ok v) (.ok v) nan
  /-- The calculator rejects the remainder of a NaN by zero. -/
  | modulo {v : Float} {nan : Prop} (taken : nan) : Outcomes (.ok v) (.error .moduloByZero) nan
  /-- Both are stopped, the calculator by a zero divisor. -/
  | stopped {e : Breakdown} {cause : Cause} {nan : Prop}
    (zero : cause = .divisionByZero ∨ cause = .moduloByZero) :
    Outcomes (.error e) (.error cause) nan
  /-- The calculator goes on where strictly there is no result. -/
  | passed {e : Breakdown} {v : Float} {nan : Prop} (other : e ≠ .zeroDivision) :
    Outcomes (.error e) (.ok v) nan

namespace Outcomes

variable {r r' : Except Breakdown Float} {o o' : Except Cause Float} {nan nan' : Prop}

/-- The calculator is stopped by zero divisors only. -/
theorem zero_of_error {cause : Cause} (h : Outcomes r (.error cause) nan) :
    cause = .divisionByZero ∨ cause = .moduloByZero := by
  cases h with
  | modulo => exact .inr rfl
  | stopped zero => exact zero

/-- Where there is strictly no result, and not for a division by zero, the
    calculator may come to anything that it comes to otherwise. -/
theorem of_error {e : Breakdown} (he : e ≠ .zeroDivision) (h : Outcomes r o nan) :
    Outcomes (.error e) o nan' := by
  cases o with
  | ok v => exact .passed he
  | error cause => exact .stopped h.zero_of_error

/-- A rejection by the calculator stands, whatever the strict evaluation goes on
    to. -/
theorem of_modulo (hnan : nan) : Outcomes r (.error .moduloByZero) nan := by
  cases r with
  | ok v => exact .modulo hnan
  | error e => exact .stopped (.inr rfl)

theorem congr (h : Outcomes r o nan) (hnan : nan ↔ nan') : Outcomes r o nan' :=
  propext hnan ▸ h

theorem map (f : Float → Float) (h : Outcomes r o nan) :
    Outcomes (r >>= fun v => pure (f v)) (o >>= fun v => pure (f v)) nan := by
  cases h with
  | same not_nan => exact .same not_nan
  | modulo taken => exact .modulo taken
  | stopped zero => exact .stopped zero
  | passed other => exact .passed other

/-- Two operands and an operation on them. -/
theorem operation {f : Float → Float → Except Breakdown Float}
    {g : Float → Float → Except Cause Float} {taken : Float → Float → Prop}
    (h : Outcomes r o nan) (h' : Outcomes r' o' nan')
    (hop : ∀ a b, Outcomes (f a b) (g a b) (taken a b)) :
    Outcomes (r >>= fun a => r' >>= fun b => f a b) (o >>= fun a => o' >>= fun b => g a b)
      (nan ∨ nan' ∨ ∃ a b, r = .ok a ∧ r' = .ok b ∧ taken a b) := by
  -- The first operand decides unless both evaluations find it, and then the second one does.
  cases h with
  | modulo hnan => exact of_modulo (.inl hnan)
  | stopped zero => exact .stopped zero
  | @passed e a _ he =>
    cases h' with
    | @same b => exact of_error he (hop a b)
    | modulo => exact .stopped (.inr rfl)
    | stopped zero => exact .stopped zero
    | @passed _ b => exact of_error he (hop a b)
  | @same a _ hnan =>
    cases h' with
    | modulo hnan' => exact of_modulo (.inr (.inl hnan'))
    | stopped zero => exact .stopped zero
    | @passed _ b _ he => exact of_error he (hop a b)
    | @same b _ hnan' =>
      refine (hop a b).congr ⟨fun htaken => .inr (.inr ⟨a, b, rfl, rfl, htaken⟩), ?_⟩
      rintro (h | h | ⟨_, _, ha, hb, htaken⟩)
      · exact absurd h hnan
      · exact absurd h hnan'
      · cases ha
        cases hb
        exact htaken

end Outcomes

/-! ## Operations -/

section operations
variable (a b : Float)

theorem outcomes_sum (op : SumOp) :
    Outcomes (op.operation.apply a b) (.ok (op.apply a b)) (op.operation.IsModuloOfNaN a b) := by
  cases op <;> exact .same fun h => nomatch h.1

theorem outcomes_divide :
    Outcomes (Strict.divide a b) (ProductOp.div.apply a b) (Operation.div.IsModuloOfNaN a b) := by
  unfold Strict.divide ProductOp.apply
  dsimp only
  split
  · exact .stopped (.inl rfl)
  · exact .same fun h => nomatch h.1

theorem not_isNaN_of_beq_zero (h : (b == 0) = true) : b.isNaN = false := by
  rw [Binary64.beq_zero_eq] at h
  rw [Binary64.isNaN_eq]
  cases hb : Binary64.form b <;> rw [hb] at h <;> first | rfl | cases h

theorem outcomes_modulo :
    Outcomes (Strict.modulo a b) (ProductOp.mod.apply a b)
      (Operation.modulo.IsModuloOfNaN a b) := by
  unfold Strict.modulo ProductOp.apply
  dsimp only
  by_cases hzero : (b == 0) = true
  · -- a zero divisor is strictly an error, except for a NaN
    have hb := not_isNaN_of_beq_zero b hzero
    rw [if_pos hzero]
    by_cases ha : a.isNaN = true
    · simp only [ha, Bool.true_or, if_true]
      exact .modulo ⟨rfl, ha, hzero⟩
    · simp only [ha, hb, hzero, Bool.or_self, Bool.or_true, Bool.false_eq_true, if_false, if_true]
      exact .stopped (.inr rfl)
  · have hnot : ¬ Operation.modulo.IsModuloOfNaN a b := fun h => hzero h.2.2
    rw [if_neg hzero]
    split
    · next hnan =>
      rw [Binary64.remainder_of_not_finite (.inr (Bool.or_eq_true_iff.1 hnan))]
      exact .same hnot
    · split
      · exact .passed (by decide)
      · exact .same hnot

theorem outcomes_power :
    Outcomes (Strict.power a b) (.ok (Binary64.power a b)) (Operation.power.IsModuloOfNaN a b) := by
  have hnot : ¬ Operation.power.IsModuloOfNaN a b := fun h => nomatch h.1
  unfold Strict.power
  dsimp only
  split
  · exact .same hnot
  · split
    · exact .passed (by decide)
    · split
      · exact .passed (by decide)
      · split
        · exact .passed (by decide)
        · exact .same hnot

theorem outcomes_product (op : ProductOp) :
    Outcomes (op.operation.apply a b) (op.apply a b) (op.operation.IsModuloOfNaN a b) := by
  cases op with
  | mul => exact .same fun h => nomatch h.1
  | div => exact outcomes_divide a b
  | mod => exact outcomes_modulo a b

end operations

/-! ## Samples -/

/-- What both evaluations of a sample come to. -/
theorem Sample.outcomes {tier : Tier} (x : Sample tier) :
    Outcomes x.formula.value x.own x.formula.ModuloOfNaN := by
  induction x with
  | literal l =>
    rw [own, l.value_eq, ← l.value_referenceNumeral]
    exact .same id
  | negated x ih => exact ih.map fun v => -v
  | enclosed pair x ih =>
    cases pair with
    | bars => exact ih.map Float.abs
    | parens | braces | brackets => exact ih
  | factor x ih | power x ih | term x ih => exact ih
  | raised x y ihx ihy => exact ihx.operation ihy outcomes_power
  | product x op y ihx ihy => exact ihx.operation ihy fun a b => outcomes_product a b op
  | sum x op y ihx ihy => exact ihx.operation ihy fun a b => outcomes_sum a b op

/-! ## Agreement -/

theorem isClose_self {v : Float} (h : v.isNaN = false) : isClose v v = true := by
  have hform : Binary64.form v ≠ .nan := by
    intro hnan
    rw [Binary64.isNaN_eq, hnan] at h
    cases h
  rw [isClose, Binary64.beq_self hform, Bool.true_or]

/-- A double agrees with itself, also a NaN. -/
theorem agree_self {ε : Type} (v : Float) :
    agree (.ok v) (.ok v : Except ε Float) = true := by
  cases h : v.isNaN with
  | true => simp only [agree, h, Bool.or_self, Bool.and_self, if_true]
  | false => simp only [agree, h, Bool.or_self, Bool.false_eq_true, if_false, isClose_self h]

/-- What the calculator gives to a text, against the strict value of a formula, if
    `nan` says whether the remainder of a NaN by zero was taken. -/
structure Agreement (strict : Except Breakdown Float) (nan : Prop) (own : Except Fault Float) :
    Prop where
  /-- The calculator reports zero divisors only. -/
  errors : ∀ e, own = .error e → ∃ r, e = .rejected r ∧ r.diagnostic.category = .arithmetic ∧
    (r.diagnostic.summary = "Division by zero" ∨
      r.diagnostic.summary = "Modulo division by zero")
  same : ∀ v, strict = .ok v → ¬ nan → own = .ok v
  modulo : ∀ v, strict = .ok v → nan →
    ∃ r, own = .error (.rejected r) ∧ r.diagnostic.summary = "Modulo division by zero"
  disagrees : agree strict own = false ↔ (∃ v, strict = .ok v) ∧ nan

/-- A rejection is reported with the wording of its cause. -/
theorem diagnostic_eq (cause : Cause) (place : Option Place) :
    (Rejection.mk cause place).diagnostic.category = cause.category ∧
      (Rejection.mk cause place).diagnostic.summary = cause.summary := by
  cases place <;> exact ⟨rfl, rfl⟩

theorem Outcomes.agreement {strict : Except Breakdown Float} {o : Except Cause Float}
    {nan : Prop} {own : Except Fault Float} (h : Outcomes strict o nan)
    (hok : ∀ v, o = .ok v → own = .ok v)
    (herror : ∀ cause, o = .error cause → ∃ place, own = .error (.rejected ⟨cause, place⟩)) :
    Agreement strict nan own where
  errors := by
    intro e he
    cases o with
    | ok v => rw [hok v rfl] at he; cases he
    | error cause =>
      obtain ⟨place, hown⟩ := herror cause rfl
      rw [hown] at he
      cases he
      obtain ⟨hcategory, hsummary⟩ := diagnostic_eq cause place
      refine ⟨_, rfl, ?_⟩
      rw [hcategory, hsummary]
      obtain rfl | rfl := h.zero_of_error
      · exact ⟨rfl, .inl rfl⟩
      · exact ⟨rfl, .inr rfl⟩
  same := by
    intro v hv hnan
    cases h with
    | same => cases hv; exact hok v rfl
    | modulo taken => exact absurd taken hnan
    | stopped | passed => cases hv
  modulo := by
    intro v hv hnan
    cases h with
    | same not_nan => exact absurd hnan not_nan
    | modulo taken =>
      obtain ⟨place, hown⟩ := herror _ rfl
      exact ⟨_, hown, (diagnostic_eq _ place).2⟩
    | stopped | passed => cases hv
  disagrees := by
    cases h with
    | @same v _ not_nan =>
      rw [hok v rfl, agree_self]
      exact iff_of_false nofun fun h => not_nan h.2
    | @modulo v _ taken =>
      obtain ⟨place, hown⟩ := herror _ rfl
      rw [hown]
      exact iff_of_true rfl ⟨⟨v, rfl⟩, taken⟩
    | @stopped e cause =>
      obtain ⟨place, hown⟩ := herror _ rfl
      rw [hown]
      refine iff_of_false ?_ fun ⟨⟨_, h⟩, _⟩ => nomatch h
      cases e <;> exact nofun
    | @passed e v _ he =>
      rw [hok v rfl]
      refine iff_of_false ?_ fun ⟨⟨_, h⟩, _⟩ => nomatch h
      cases e with
      | zeroDivision => exact absurd rfl he
      | overflow | domain => exact nofun

/-- The two texts mean the same. -/
structure Faithful (code reference : String) : Prop where
  /-- The first text is an expression of the full dialect with nothing behind it. -/
  sentence : ∃ (T : Tree .full .expression) (t : Token) (s' : Scanner),
    (Scanner.ofText Dialect.full.keywords code.toList).Gives (T.yield ++ [t]) s' ∧ t.isEnd
  /-- The second text is a formula, and both are evaluated to the same. -/
  meaning : ∃ f, Formula.parse reference = some f ∧
    Agreement f.value f.ModuloOfNaN (calculated code)

/-- The notations of a sample mean the same. -/
theorem faithful_sample {tier : Tier} (x : Sample tier) : Faithful x.code x.reference where
  sentence := by
    obtain ⟨T, t, s', hgives, hend, -⟩ := x.sentence_code
    exact ⟨T, t, s', hgives, hend⟩
  meaning := by
    obtain ⟨hok, herror⟩ := calculated_code x
    exact ⟨x.formula, x.parse_reference, x.outcomes.agreement hok herror⟩

/-- The second notation has the value that the sample is said to have. -/
theorem value_reference {tier : Tier} (x : Sample tier) :
    (Formula.parse x.reference).map Formula.value = some x.value := by
  rw [x.parse_reference, Option.map_some, x.value_formula]

/-- Whatever is drawn, at any depth and of any tier, the two texts that come of it
    mean the same, and the second one has the value that the sample is said to
    have. -/
theorem faithful_generated (depth : Int) (draws : Draws) :
    (let x := Sample.literal (Gen.literal draws).1
     Faithful x.code x.reference ∧
      (Formula.parse x.reference).map Formula.value = some x.value) ∧
    ∀ tier,
      let x := (Gen.sample tier depth.toNat draws).1
      Faithful x.code x.reference ∧
        (Formula.parse x.reference).map Formula.value = some x.value :=
  ⟨⟨faithful_sample _, value_reference _⟩, fun _ => ⟨faithful_sample _, value_reference _⟩⟩

end Calculator.CrossCheck
