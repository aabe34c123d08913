import Calculator.Expression
import Calculator.Proofs.Binary64.Root
import Calculator.Proofs.Binary64.Whole
import Calculator.Proofs.Decimal.Literal

/-! # Operations behind guards

    The operations of the calculator have a result for all operands. They can be
    had from strict ones, which break down for some: an operand is checked
    beforehand, or the breakdown is caught and replaced by a value. This file
    writes the operations in that way. No breakdown is left over, and the results
    are those of the total operations (`divide_eq`, `modulo_eq`, `power_eq`,
    `squareRoot_eq`, `factorial_eq`).
-/

namespace Calculator

open CrossCheck (Breakdown Strict.divide Strict.modulo Strict.power Strict.truncate
  Strict.ofInt Strict.isIntegral)
open Binary64

/-- The square root. A NaN or an infinity that does not come from the argument is
    an error. -/
def CrossCheck.Strict.root (x : Float) : Except Breakdown Float :=
  let root := x.sqrt
  if root.isNaN && !x.isNaN then .error .domain
  else if root.isInf && x.isFinite then .error .domain
  else .ok root

namespace Guarded

/-! ## Quotients and remainders -/

/-- The quotient. A zero divisor is a cause to reject the statement. -/
def divide (a b : Float) : Except Breakdown (Except Cause Float) :=
  if b == 0 then return .error .divisionByZero else .ok <$> Strict.divide a b

/-- The remainder. A zero divisor is a cause to reject the statement, and where
    there is no remainder it is a NaN. -/
def modulo (a b : Float) : Except Breakdown (Except Cause Float) :=
  if b == 0 then return .error .moduloByZero
  else
    match Strict.modulo a b with
    | .error .domain => return .ok nan
    | result => .ok <$> result

/-- The quotient that is read with an expression is the guarded one. -/
theorem divide_eq (t : Token) (a b : Float) :
    Reading.located t <$> divide a b = .ok (Reading.divide t a b) := by
  unfold divide Reading.divide Strict.divide
  cases b == 0 <;> rfl

theorem modulo_eq_ite (a b : Float) :
    modulo a b = .ok (if b == 0 then .error .moduloByZero else .ok (remainder a b)) := by
  unfold modulo Strict.modulo remainder
  -- A NaN, an infinite dividend and a zero divisor are told by the forms alone.
  rw [isNaN_eq, isNaN_eq, isInf_eq, beq_zero_eq]
  generalize form a = f
  generalize form b = g
  cases f with
  | nan | infinite => cases g with
    | nan | infinite => rfl
    | finite t n => cases n <;> rfl
  | finite s m =>
    cases g with
    | nan | infinite => rfl
    | finite t n => cases n <;> rfl

theorem modulo_eq (t : Token) (a b : Float) :
    Reading.located t <$> modulo a b = .ok (Reading.modulo t a b) := by
  rw [modulo_eq_ite, Reading.modulo]
  cases b == 0 <;> rfl

/-! ## Powers -/

/-- Whether a double is an odd whole number. -/
def isOdd (x : Float) : Except Breakdown Bool := do
  if ← Strict.isIntegral x then return (← Strict.truncate x) % 2 = 1 else return false

/-- The power. Where it is too large it is an infinity, a zero has an infinite
    power too, and where there is no power it is a NaN. -/
def power (base exponent : Float) : Except Breakdown Float :=
  match Strict.power base exponent with
  | .error .overflow => do
    if base < 0 && (← isOdd exponent) then return infinity true else return infinity false
  | .error .domain => do
    if base == 0 then
      if ← isOdd exponent then return infinity (negative base) else return infinity false
    else return nan
  | result => result

theorem isOdd_eq (x : Float) : isOdd x = .ok (Binary64.isOdd x) := by
  unfold isOdd Binary64.isOdd
  rw [isIntegral_eq, isWhole]
  cases h : whole? x with
  | none => rfl
  | some i =>
    rw [truncate_of_whole h]
    rfl

theorem isInf_one : (1 : Float).isInf = false := by
  rw [isInf_eq, form_one]
  rfl

section power
variable {base exponent : Float} {s t : Bool} {m n : Nat}

theorem power_of_pole (hbase : form base = .finite s 0) (hexponent : form exponent = .finite true n)
    (hn : n ≠ 0) : Binary64.power base exponent = infinity (s && Binary64.isOdd exponent) := by
  have hzero : (exponent == 0) = false := by
    rw [beq_zero_eq, hexponent]
    exact beq_false_of_ne hn
  have hone : (base == 1) = false := by
    rw [beq_one_eq, hbase]
    exact decide_eq_false (by simp [Nat.ne_of_lt unitsPerOne_pos])
  rw [Binary64.power, hzero, hone, hbase, hexponent]
  rfl

theorem power_of_negative_base (hbase : form base = .finite true m) (hm : m ≠ 0)
    (hexponent : form exponent = .finite t n) (hwhole : isWhole exponent = false) :
    Binary64.power base exponent = nan := by
  have hzero : (exponent == 0) = false := by
    rw [beq_zero_eq, hexponent]
    refine beq_false_of_ne fun hn => ?_
    rw [isWhole_eq hexponent, hn, Nat.zero_mod] at hwhole
    exact absurd rfl (of_decide_eq_false hwhole)
  have hone : (base == 1) = false := by
    rw [beq_one_eq, hbase]
    exact decide_eq_false (by simp)
  obtain ⟨m, rfl⟩ := Nat.exists_eq_succ_of_ne_zero hm
  rw [Binary64.power, hzero, hone, hbase, hexponent]
  dsimp only
  rw [hwhole]
  rfl

theorem power_of_overflow (hbase : form base = .finite s m)
    (hexponent : form exponent = .finite t n)
    (hpole : m = 0 → t = true → n = 0) (hwhole : s = true → m ≠ 0 → isWhole exponent = true)
    (hinf : (Binary64.power base exponent).isInf = true) :
    m ≠ 0 ∧ Binary64.power base exponent = infinity (s && Binary64.isOdd exponent) := by
  rw [Binary64.power] at hinf ⊢
  by_cases hone : (exponent == 0 || base == 1) = true
  · rw [if_pos hone] at hinf
    rw [isInf_one] at hinf
    cases hinf
  · rw [if_neg hone, hbase, hexponent] at hinf
    rw [if_neg hone, hbase, hexponent]
    cases m with
    | zero =>
      cases t with
      | true =>
        have hzero : (exponent == 0) = true := by
          rw [beq_zero_eq, hexponent, hpole rfl rfl]
          rfl
        rw [hzero] at hone
        exact absurd rfl hone
      | false =>
        -- a zero has a zero as its power
        dsimp only [limit] at hinf
        rw [isInf_eq, if_neg Bool.false_ne_true, form_ofCode _ (by decide)] at hinf
        cases hinf
    | succ m =>
      -- what is infinite is the rounded magnitude, and it keeps its sign
      have hcondition : (s && !isWhole exponent) = false := by
        cases s with
        | false => rfl
        | true => rw [hwhole rfl (Nat.succ_ne_zero m)]; rfl
      dsimp only at hinf ⊢
      rw [hcondition, if_neg Bool.false_ne_true] at hinf
      rw [hcondition, if_neg Bool.false_ne_true]
      exact ⟨Nat.succ_ne_zero m, withSign_of_isInf hinf⟩

end power

theorem power_eq (base exponent : Float) :
    power base exponent = .ok (Binary64.power base exponent) := by
  unfold power Strict.power
  dsimp only
  -- The strict power breaks down for finite operands only.
  cases hbase : form base with
  | nan | infinite =>
    rw [isFinite_eq, hbase]
    rfl
  | finite s m =>
    cases hexponent : form exponent with
    | nan | infinite =>
      rw [isFinite_eq, isFinite_eq, hbase, hexponent]
      rfl
    | finite t n =>
      have hfinite : (!base.isFinite || !exponent.isFinite) = false := by
        rw [isFinite_eq, isFinite_eq, hbase, hexponent]
        rfl
      have hzero : (base == 0) = (m == 0) := by rw [beq_zero_eq, hbase]; rfl
      have hbelow : decide (base < 0) = (s && m != 0) := by rw [decide_lt_zero, hbase]; rfl
      have hbelow' : decide (exponent < 0) = (t && n != 0) := by
        rw [decide_lt_zero, hexponent]
        rfl
      rw [hfinite, if_neg Bool.false_ne_true, hzero, hbelow, hbelow', isOdd_eq]
      -- a negative power of a zero
      by_cases hpole : (m == 0 && (t && n != 0)) = true
      · rw [if_pos hpole]
        simp only [Bool.and_eq_true, beq_iff_eq, bne_iff_ne] at hpole
        obtain ⟨rfl, rfl, hn⟩ := hpole
        rw [power_of_pole hbase hexponent hn, (form_eq_finite hbase).2.1]
        cases s <;> cases Binary64.isOdd exponent <;> rfl
      · rw [if_neg hpole]
        -- a fractional power of a negative number
        by_cases hdomain : (s && m != 0 && !isWhole exponent) = true
        · rw [if_pos hdomain]
          simp only [Bool.and_eq_true, bne_iff_ne, Bool.not_eq_true'] at hdomain
          obtain ⟨⟨rfl, hm⟩, hwhole⟩ := hdomain
          rw [power_of_negative_base hbase hm hexponent hwhole, beq_false_of_ne hm]
          rfl
        · rw [if_neg hdomain]
          -- a power beyond the greatest double
          by_cases hinf : (Binary64.power base exponent).isInf = true
          · obtain ⟨hm, hpower⟩ := power_of_overflow hbase hexponent (by simpa using hpole)
              (by simpa using hdomain) hinf
            rw [if_pos hinf, hpower, bne_iff_ne.2 hm]
            cases s <;> cases Binary64.isOdd exponent <;> rfl
          · rw [if_neg hinf]

/-! ## Functions with a domain -/

/-- The square root of a number that is not below `0`. -/
def squareRoot (x : Float) : Except Breakdown (Except Cause Float) :=
  if x < 0 then return .error (.negativeRoot x) else .ok <$> CrossCheck.Strict.root x

/-- A rising product whose factors are converted one by one. -/
def risingProduct : (count k : Nat) → (start : Float) → Except Breakdown Float
  | 0, _, start => return start
  | count + 1, k, start => do
    let next := start * (← Strict.ofInt k)
    if next.isInf then return next else risingProduct count (k + 1) next

/-- The factorial of a whole number that is not negative. -/
def factorial (x : Float) : Except Breakdown (Except Cause Float) := do
  if ← Strict.isIntegral x then
    let n ← Strict.truncate x
    if n < 0 then return .error (.negativeFactorial n)
    else .ok <$> risingProduct (n.toNat - 1) 2 1
  else return .error (.fractionalFactorial x)

theorem squareRoot_eq (x : Float) : squareRoot x = .ok (Calculator.squareRoot x) := by
  unfold squareRoot Calculator.squareRoot
  by_cases hx : x < 0
  · rw [if_pos hx, if_pos hx]
    rfl
  · obtain ⟨hnan, hfinite⟩ := sqrt_of_not_lt_zero hx
    have hroot : CrossCheck.Strict.root x = .ok x.sqrt := by
      have hinf : (x.sqrt.isInf && x.isFinite) = false := by
        cases hx : x.isFinite with
        | false => exact Bool.and_false _
        | true => rw [isInf_of_isFinite (hfinite hx)]; rfl
      dsimp only [CrossCheck.Strict.root]
      rw [hnan, hinf, Bool.and_not_self]
      rfl
    rw [if_neg hx, if_neg hx, hroot]
    rfl

/-- The factors that are multiplied before a factorial is infinite are doubles. -/
theorem ofInt_factor {k : Nat} (hk : k ≤ 171) : Strict.ofInt k = .ok (ofNat k) := by
  have hlt : nearestCode (k * unitsPerOne) 1 < infinityCode :=
    calc nearestCode (k * unitsPerOne) 1 ≤ nearestCode (171 * unitsPerOne) 1 :=
          nearestCode_mono (Nat.mul_le_mul_right _ hk)
      _ < infinityCode := by decide +kernel
  have hfinite : (ofNat k).isInf = false := by
    rw [isInf_eq, ofNat, ofUnits, nearest, form_ofCode _ hlt]
    rfl
  have hnonneg : decide ((k : Int) < 0) = false := decide_eq_false (by omega)
  unfold Strict.ofInt
  rw [hnonneg, Int.natAbs_natCast]
  show (if (ofNat k).isInf = true then _ else _) = _
  rw [hfinite]
  rfl

/-- Conversions do not fail in a rising product that stops, at the latest, when it
    is infinite. The induction is on the number of factors up to there. -/
theorem risingProduct_eq {m count k : Nat} {start : Float} (hk : k + m ≤ 172)
    (hstop : count ≤ m ∨
      start.isInf = false ∧ (Calculator.risingProduct m k start).isInf = true) :
    risingProduct count k start = .ok (Calculator.risingProduct count k start) := by
  induction m generalizing count k start with
  | zero =>
    obtain hcount | ⟨hfinite, hinf⟩ := hstop
    · rw [Nat.le_zero.1 hcount]
      rfl
    · -- no factor is left, and the product is the start
      have hstart : start.isInf = true := hinf
      rw [hfinite] at hstart
      cases hstart
  | succ m ih =>
    cases count with
    | zero => rfl
    | succ count =>
      rw [risingProduct, ofInt_factor (by omega), Calculator.risingProduct_succ]
      show (if (start * ofNat k).isInf = true then pure (start * ofNat k)
        else risingProduct count (k + 1) (start * ofNat k)) = _
      by_cases hinf : (start * ofNat k).isInf = true
      · rw [if_pos hinf, if_pos hinf]
        rfl
      · -- Still finite: the product that becomes infinite at `k + m` is now one factor closer.
        rw [if_neg hinf, if_neg hinf]
        refine ih (by omega) (hstop.imp Nat.le_of_succ_le_succ ?_)
        rintro ⟨-, hlast⟩
        rw [Calculator.risingProduct_succ, if_neg hinf] at hlast
        exact ⟨Bool.eq_false_iff.2 hinf, hlast⟩

/-- The product of the factors up to `171` is infinite. -/
theorem isInf_risingProduct : (Calculator.risingProduct 170 2 1).isInf = true := by
  decide +kernel

theorem factorial_eq (x : Float) : factorial x = .ok (Calculator.factorial x) := by
  unfold factorial Calculator.factorial
  rw [isIntegral_eq, isWhole]
  cases h : whole? x with
  | none => rfl
  | some i =>
    rw [truncate_of_whole h]
    cases i with
    | negSucc n =>
      show (if Int.negSucc n < 0 then pure _ else _) = _
      rw [if_pos (Int.negSucc_lt_zero n)]
      rfl
    | ofNat n =>
      -- up to `171` every factor is a double, and there the product is infinite already
      have hproduct : risingProduct (n - 1) 2 1 = .ok (Calculator.risingProduct (n - 1) 2 1) :=
        risingProduct_eq (m := 170) (by decide) (.inr ⟨isInf_one, isInf_risingProduct⟩)
      show Except.ok <$> risingProduct (n - 1) 2 1 = _
      rw [hproduct]
      rfl

/-! ## All operations -/

/-- No operation on numbers breaks down, and the text of every literal that is
    scanned can be converted to its value. -/
structure NeverBreaksDown : Prop where
  divide (t : Token) (a b : Float) :
    Reading.located t <$> divide a b = .ok (Reading.divide t a b)
  modulo (t : Token) (a b : Float) :
    Reading.located t <$> modulo a b = .ok (Reading.modulo t a b)
  power (base exponent : Float) : power base exponent = .ok (Binary64.power base exponent)
  squareRoot (x : Float) : squareRoot x = .ok (Calculator.squareRoot x)
  factorial (x : Float) : factorial x = .ok (Calculator.factorial x)
  literal (cs : List Char) (n : Numeral) (h : Numeral.scan? cs = some n) :
    Numeral.ofText? n.text = some n.value

theorem neverBreaksDown : NeverBreaksDown :=
  ⟨divide_eq, modulo_eq, power_eq, squareRoot_eq, factorial_eq, fun _ _ => Numeral.ofText?_text⟩

end Guarded

end Calculator
