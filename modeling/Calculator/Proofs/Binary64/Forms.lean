import Calculator.Proofs.Binary64.Units

/-! # What the predicates of doubles say

    The form of a double is defined on its bits, and the predicates and
    comparisons of `Float` on what it is unpacked to. `Unpacks` ties the two
    together, and from it every predicate is read off the form (`isNaN_eq`,
    `lt_zero_iff` and others). In the other direction, a form other than that of
    a NaN determines the double (`form_inj`).
-/

namespace Calculator.Binary64

open Float.Model (UnpackedFloat Format)
open Float.Model.UnpackedFloat (Sign)

variable {x y : Float}

/-! ## Unpacking -/

/-- The unpacked doubles of a form. A finite one has 53 significant bits unless
    its step is the least one. -/
inductive Unpacks : Form → UnpackedFloat → Prop where
  | nan : Unpacks .nan .notANumber
  | infinite (negative : Bool) : Unpacks (.infinite negative) (.infinity (signOf negative))
  | zero (negative : Bool) : Unpacks (.finite negative 0) (.zero (signOf negative))
  | finite (negative : Bool) {m k : Nat} (pos : 0 < m) (small : m < 2 * binadeSize)
      (bound : k ≤ 2045) (canonical : k = 0 ∨ binadeSize ≤ m) :
    Unpacks (.finite negative (m * 2 ^ k))
      (.finite (signOf negative) m ((k : Int) - 1074) pos)

theorem code_lt (x : Float) : code x < 2048 * binadeSize := by
  rw [← signPlace_eq]
  exact Nat.mod_lt _ (by decide)

/-- The fields of a double are its sign and the two parts of its code. -/
theorem unpack_toModel (x : Float) :
    x.toModel.unpack =
      ofFields (signOf (negative x)) (code x / binadeSize) (code x % binadeSize) := by
  have hexponent : x.toBits.toNat / binadeSize % 2048 = code x / binadeSize := by
    rw [code, signPlace_eq, Nat.mul_comm, Nat.mod_mul_right_div_self]
  have hmantissa : x.toBits.toNat % binadeSize = code x % binadeSize := by
    rw [code, signPlace_eq, Nat.mul_comm, Nat.mod_mul_right_mod]
  rw [← hexponent, ← hmantissa]
  exact unpack_eq _

theorem unpacks (x : Float) : Unpacks (form x) x.toModel.unpack := by
  have hcode := Nat.div_add_mod (code x) binadeSize
  have hlt := code_lt x
  have hm := Nat.mod_lt (code x) binadeSize_pos
  have hinfinity : infinityCode = 2047 * binadeSize := rfl
  rw [unpack_toModel]
  unfold form ofFields
  generalize negative x = negative
  generalize code x = c at *
  generalize hdiv : c / binadeSize = e at *
  generalize c % binadeSize = m at *
  subst hcode
  have he : e ≤ 2047 := by
    refine Nat.le_of_lt_succ (Nat.lt_of_mul_lt_mul_left (a := binadeSize) ?_)
    omega
  by_cases htop : e = 2047
  · -- an infinity, or a NaN if there is a mantissa
    subst htop
    rw [if_neg (by omega), if_pos rfl]
    by_cases hzero : m = 0
    · rw [if_pos (by omega), if_pos hzero]
      exact .infinite negative
    · rw [if_neg (by omega), if_neg hzero]
      exact .nan
  · have hle : binadeSize * (e + 1) ≤ binadeSize * 2047 := Nat.mul_le_mul_left _ (by omega)
    rw [Nat.mul_succ] at hle
    rw [if_pos (by omega), if_neg htop]
    -- In the first binade the code is the mantissa. In the others it lacks the leading bit,
    -- and the step doubles from one to the next.
    cases e with
    | zero =>
      rw [if_pos rfl, Nat.mul_zero, Nat.zero_add, unitsOfCode_of_lt (by omega)]
      by_cases hzero : m = 0
      · rw [dif_pos hzero, hzero]
        exact .zero negative
      · rw [dif_neg hzero]
        have h := Unpacks.finite negative (k := 0) (Nat.pos_of_ne_zero hzero) (by omega)
          (by omega) (.inl rfl)
        rwa [Nat.pow_zero, Nat.mul_one] at h
    | succ k =>
      have hunits : unitsOfCode (binadeSize * (k + 1) + m) = (binadeSize + m) * 2 ^ k := by
        have hsum : binadeSize * (k + 1) + m = k * binadeSize + (binadeSize + m) := by
          rw [Nat.mul_succ, Nat.mul_comm]
          omega
        cases k with
        | zero =>
          rw [hsum, Nat.zero_mul, Nat.zero_add, unitsOfCode_of_lt (by omega), Nat.pow_zero,
            Nat.mul_one]
        | succ k => rw [hsum, unitsOfCode_add (Nat.succ_pos k) (by omega) (by omega)]
      have hexponent : ((k + 1 : Nat) : Int) - 1075 = (k : Int) - 1074 := by omega
      rw [if_neg (Nat.succ_ne_zero k), hunits, hexponent]
      exact .finite negative (Nat.add_pos_left binadeSize_pos m) (by omega) (by omega)
        (.inr (by omega))

theorem unpack_of_zero {s : Bool} (h : form x = .finite s 0) :
    x.toModel.unpack = .zero (signOf s) := by
  have hunpacks := unpacks x
  generalize x.toModel.unpack = u at *
  generalize form x = f at *
  cases hunpacks with
  | nan | infinite => cases h
  | zero =>
    cases h
    rfl
  | @finite _ m k pos =>
    have hne := Nat.mul_ne_zero (Nat.ne_of_gt pos) (Nat.ne_of_gt (Nat.two_pow_pos k))
    exact absurd (Form.finite.inj h).2 hne

/-! ## Predicates -/

namespace Form

def isNaN : Form → Bool
  | .nan => true
  | _ => false

def isInfinite : Form → Bool
  | .infinite _ => true
  | _ => false

def isFinite : Form → Bool
  | .finite _ _ => true
  | _ => false

/-- A zero of either sign. -/
def isZero : Form → Bool
  | .finite _ n => n == 0
  | _ => false

/-- Less than zero; no zero is. -/
def isBelowZero : Form → Bool
  | .finite negative n => negative && n != 0
  | .infinite negative => negative
  | .nan => false

end Form

theorem isNaN_eq (x : Float) : x.isNaN = (form x).isNaN := by
  have h : ∀ {f u}, Unpacks f u → u.isNaN = f.isNaN := fun h => by cases h <;> rfl
  exact h (unpacks x)

theorem isInf_eq (x : Float) : x.isInf = (form x).isInfinite := by
  have h : ∀ {f u}, Unpacks f u → u.isInf = f.isInfinite := fun h => by cases h <;> rfl
  exact h (unpacks x)

theorem isFinite_eq (x : Float) : x.isFinite = (form x).isFinite := by
  have h : ∀ {f u}, Unpacks f u → u.isFinite = f.isFinite := fun h => by cases h <;> rfl
  exact h (unpacks x)

theorem isInf_of_isFinite (h : x.isFinite = true) : x.isInf = false := by
  rw [isFinite_eq] at h
  rw [isInf_eq]
  generalize form x = f at *
  cases f <;> first | rfl | cases h

theorem lt_iff : x < y ↔ x.toModel.unpack.lt y.toModel.unpack = true := decide_eq_true_iff

theorem lt_zero_iff : x < 0 ↔ (form x).isBelowZero = true := by
  have h := unpacks x
  refine lt_iff.trans ?_
  -- Only the sign of `x` and whether it is a zero matter against `0`.
  show x.toModel.unpack.lt (.zero .positive) = true ↔ _
  generalize form x = f at *
  generalize x.toModel.unpack = u at *
  cases h with
  | nan => exact iff_of_false nofun nofun
  | infinite negative =>
    cases negative
    · exact iff_of_false nofun nofun
    · exact iff_of_true rfl rfl
  | zero negative => cases negative <;> exact iff_of_false nofun nofun
  | @finite negative m k pos =>
    have hne := Nat.mul_ne_zero (Nat.ne_of_gt pos) (Nat.ne_of_gt (Nat.two_pow_pos k))
    cases negative
    · exact iff_of_false nofun nofun
    · exact iff_of_true rfl (bne_iff_ne.2 hne)

theorem decide_lt_zero (x : Float) : decide (x < 0) = (form x).isBelowZero := by
  rw [Bool.eq_iff_iff, decide_eq_true_iff, lt_zero_iff]

/-! ## The double with a given code -/

theorem unpack_bits (s : Bool) {c : Nat} (hc : c < signPlace) :
    UnpackedFloat.unpack Format.binary64 (BitVec.ofNat 64 (if s then signPlace + c else c)) =
      ofFields (signOf s) (c / binadeSize) (c % binadeSize) := by
  have hbits : (if s then signPlace + c else c) = signBit s * signPlace + c := by
    cases s <;> simp [signBit]
  -- The sign bit is a multiple of what the other two fields are read off.
  have hplace : signBit s * signPlace + c = c + binadeSize * (2048 * signBit s) := by
    rw [signPlace_eq, Nat.mul_comm (signBit s), Nat.mul_comm 2048, Nat.mul_assoc, Nat.add_comm]
  have hlt : signBit s * signPlace + c < 2 ^ 64 := by
    show signBit s * 2 ^ 63 + c < 2 ^ 64
    have hbit : signBit s ≤ 1 := by cases s <;> decide
    replace hc : c < 2 ^ 63 := hc
    omega
  have hsign : decide (signPlace ≤ signBit s * signPlace + c) = s := by
    cases s <;> simp [signBit, hc]
  have hexponent : (signBit s * signPlace + c) / binadeSize % 2048 = c / binadeSize := by
    rw [hplace, Nat.add_mul_div_left _ _ binadeSize_pos, Nat.add_mul_mod_self_left]
    exact Nat.mod_eq_of_lt (Nat.div_lt_of_lt_mul (by rwa [Nat.mul_comm, ← signPlace_eq]))
  have hmantissa : (signBit s * signPlace + c) % binadeSize = c % binadeSize := by
    rw [hplace, Nat.add_mul_mod_self_left]
  rw [unpack_eq, BitVec.toNat_ofNat, hbits, Nat.mod_eq_of_lt hlt, hsign, hexponent, hmantissa]

/-- Packing puts the fields of a code together again. -/
theorem toNat_pack_code (s : Bool) {c : Nat} (hc : c ≤ infinityCode) :
    (UnpackedFloat.pack Format.binary64
      (ofFields (signOf s) (c / binadeSize) (c % binadeSize))).toNat =
        signBit s * signPlace + c := by
  have hcode := Nat.div_add_mod' c binadeSize
  have hdiv : c / binadeSize ≤ 2047 := Nat.div_le_of_le_mul (by rwa [Nat.mul_comm])
  rw [toNat_pack_ofFields s (Nat.lt_succ_of_le hdiv) (Nat.mod_lt _ binadeSize_pos), hcode]
  -- the code of infinity is the greatest one here, so there is no mantissa behind 2047
  intro hinfinity
  have hle : c ≤ 2047 * binadeSize := hc
  rw [hinfinity] at hcode
  omega

theorem toNat_ofCode (s : Bool) {c : Nat} (hc : c ≤ infinityCode) :
    (ofCode s c).toBits.toNat = signBit s * signPlace + c := by
  show (UnpackedFloat.pack Format.binary64 (UnpackedFloat.unpack Format.binary64
    (BitVec.ofNat 64 (if s then signPlace + c else c)))).toNat = _
  rw [unpack_bits s (Nat.lt_of_le_of_lt hc (by decide)), toNat_pack_code s hc]

@[simp] theorem code_ofCode (s : Bool) {c : Nat} (hc : c ≤ infinityCode) :
    code (ofCode s c) = c := by
  rw [code, toNat_ofCode s hc, Nat.mul_add_mod_self_right]
  exact Nat.mod_eq_of_lt (Nat.lt_of_le_of_lt hc (by decide))

@[simp] theorem negative_ofCode (s : Bool) {c : Nat} (hc : c ≤ infinityCode) :
    negative (ofCode s c) = s := by
  have hcode : c < signPlace := Nat.lt_of_le_of_lt hc (by decide)
  rw [negative, toNat_ofCode s hc]
  cases s <;> simp [signBit, hcode]

theorem form_ofCode (s : Bool) {c : Nat} (hc : c < infinityCode) :
    form (ofCode s c) = .finite s (unitsOfCode c) := by
  rw [form, code_ofCode s (Nat.le_of_lt hc), negative_ofCode s (Nat.le_of_lt hc), if_pos hc]

/-- A number of units up to those of a finite double is that of a double, if it is a
    multiple of the step at its size. -/
theorem form_ofUnits {n c : Nat} (hstep : 2 ^ doublings n ∣ n) (hn : n ≤ unitsOfCode c)
    (hc : c < infinityCode) (s : Bool) : form (ofUnits s n) = .finite s n := by
  have hlt := nearestCode_lt_infinityCode hn hc
  rw [ofUnits, nearest, form_ofCode s hlt, unitsOfCode_nearestCode hstep hlt]

/-- The codes above that of infinity stand for the one NaN. -/
theorem form_ofCode_nan (s : Bool) {c : Nat} (hlow : infinityCode < c) (hhigh : c < signPlace) :
    form (ofCode s c) = .nan := by
  have hdiv : c / binadeSize = 2047 :=
    Nat.div_eq_of_lt_le (Nat.le_of_lt hlow) (by rwa [signPlace_eq] at hhigh)
  have hmod : c % binadeSize ≠ 0 := fun hzero => by
    have hcode := Nat.div_add_mod' c binadeSize
    rw [hdiv, hzero, Nat.add_zero] at hcode
    exact absurd hcode (Nat.ne_of_lt hlow)
  have hnan : (ofCode s c).isNaN = true := by
    show (UnpackedFloat.unpack Format.binary64 (UnpackedFloat.pack Format.binary64
      (UnpackedFloat.unpack Format.binary64
        (BitVec.ofNat 64 (if s then signPlace + c else c))))).isNaN = true
    rw [isNaN_pack, unpack_bits s hhigh, ofFields, if_pos hdiv, if_neg hmod]
    rfl
  rw [isNaN_eq] at hnan
  generalize form (ofCode s c) = f at *
  cases f <;> first | rfl | cases hnan

/-- A magnitude that is infinite is that of an infinity. -/
theorem withSign_of_isInf {s : Bool} (h : (withSign s x).isInf = true) :
    withSign s x = infinity s := by
  unfold withSign at *
  rw [isInf_eq] at h
  obtain hlt | heq | hgt := Nat.lt_trichotomy (code x) infinityCode
  · -- a finite double
    rw [form_ofCode s hlt] at h
    cases h
  · rw [heq, infinity]
  · -- a NaN
    rw [form_ofCode_nan s hgt (Nat.mod_lt _ (by decide))] at h
    cases h

/-! ## The double of a given form -/

/-- The bits are the sign and the code. -/
theorem toNat_toBits (x : Float) :
    x.toBits.toNat = signBit (negative x) * signPlace + code x := by
  have hlt : x.toBits.toNat / signPlace < 2 := Nat.div_lt_of_lt_mul x.toBits.toNat_lt
  have hbit : x.toBits.toNat / signPlace = signBit (negative x) := by
    unfold negative signBit
    by_cases h : signPlace ≤ x.toBits.toNat
    · have := Nat.div_pos h (by decide)
      rw [decide_eq_true h, if_pos rfl]
      omega
    · rw [decide_eq_false h, Nat.div_eq_of_lt (Nat.not_le.1 h)]
      rfl
  rw [← hbit, code, Nat.mul_comm]
  exact (Nat.div_add_mod _ _).symm

theorem eq_of_code_eq (hcode : code x = code y) (hnegative : negative x = negative y) :
    x = y := by
  have hbits : x.toBits = y.toBits := by
    rw [← UInt64.toNat_inj, toNat_toBits, toNat_toBits, hcode, hnegative]
  obtain ⟨⟨bits, valid⟩⟩ := x
  obtain ⟨⟨bits', valid'⟩⟩ := y
  cases (hbits : bits = bits')
  rfl

/-- A double that is not a NaN has the sign and the code that it was made of. -/
theorem ofCode_code (h : code x ≤ infinityCode) : ofCode (negative x) (code x) = x :=
  eq_of_code_eq (code_ofCode _ h) (negative_ofCode _ h)

theorem neg_ofFields (s : Bool) (e m : Nat) :
    (ofFields (signOf s) e m).neg = ofFields (signOf !s) e m := by
  have hsign : -signOf s = signOf !s := by cases s <;> rfl
  rw [← hsign, ofFields, ofFields]
  by_cases hinf : e = 2047
  · rw [if_pos hinf, if_pos hinf]
    by_cases hzero : m = 0
    · rw [if_pos hzero, if_pos hzero]
      rfl
    · rw [if_neg hzero, if_neg hzero]
      rfl
  · rw [if_neg hinf, if_neg hinf]
    by_cases hsub : e = 0
    · rw [if_pos hsub, if_pos hsub]
      by_cases hzero : m = 0
      · rw [dif_pos hzero, dif_pos hzero]
        rfl
      · rw [dif_neg hzero, dif_neg hzero]
        rfl
    · rw [if_neg hsub, if_neg hsub]
      rfl

/-- Negation turns the sign around. -/
theorem neg_ofCode (s : Bool) {c : Nat} (hc : c ≤ infinityCode) :
    -ofCode s c = ofCode (!s) c := by
  have hbits : (-ofCode s c).toBits.toNat = (ofCode (!s) c).toBits.toNat := by
    show (UnpackedFloat.pack Format.binary64 (ofCode s c).toModel.unpack.neg).toNat = _
    rw [unpack_toModel, code_ofCode s hc, negative_ofCode s hc, neg_ofFields,
      toNat_pack_code _ hc, toNat_ofCode _ hc]
  exact eq_of_code_eq (by rw [code, code, hbits]) (by rw [negative, negative, hbits])

theorem form_eq_finite {s : Bool} {n : Nat} (h : form x = .finite s n) :
    code x < infinityCode ∧ negative x = s ∧ unitsOfCode (code x) = n := by
  unfold form at h
  split at h
  · next hcode =>
    cases h
    exact ⟨hcode, rfl, rfl⟩
  · split at h <;> cases h

theorem form_eq_infinite {s : Bool} (h : form x = .infinite s) :
    code x = infinityCode ∧ negative x = s := by
  unfold form at h
  split at h
  · cases h
  · split at h
    · next hcode =>
      cases h
      exact ⟨hcode, rfl⟩
    · cases h

/-- A double that is not a NaN is determined by what it denotes. -/
theorem form_inj (h : form x = form y) (hx : form x ≠ .nan) : x = y := by
  cases hy : form y with
  | nan => exact absurd (h.trans hy) hx
  | infinite s =>
    obtain ⟨hcode, hnegative⟩ := form_eq_infinite (h.trans hy)
    obtain ⟨hcode', hnegative'⟩ := form_eq_infinite hy
    exact eq_of_code_eq (hcode.trans hcode'.symm) (hnegative.trans hnegative'.symm)
  | finite s n =>
    -- different codes have different units
    obtain ⟨hcode, hnegative, hunits⟩ := form_eq_finite (h.trans hy)
    obtain ⟨hcode', hnegative', hunits'⟩ := form_eq_finite hy
    exact eq_of_code_eq
      (unitsOfCode_inj (Nat.le_of_lt hcode) (Nat.le_of_lt hcode') (hunits.trans hunits'.symm))
      (hnegative.trans hnegative'.symm)

/-! ## Comparing two doubles -/

theorem beq_finite {a b : Bool} {m n : Nat} {e f : Int} (hm : 0 < m) (hn : 0 < n) :
    (UnpackedFloat.finite (signOf a) m e hm).beq (.finite (signOf b) n f hn) = true ↔
      a = b ∧ e = f ∧ m = n := by
  have hcompare : ((compare e f).then (compare m n) = .eq) ↔ e = f ∧ m = n := by
    rw [Ordering.then_eq_eq, Std.LawfulEqCmp.compare_eq_iff_eq, Std.LawfulEqCmp.compare_eq_iff_eq]
  -- below zero the order of the magnitudes is turned around, and equal ones stay equal
  cases a <;> cases b
  · show (some ((compare e f).then (compare m n)) == some .eq) = true ↔ _
    rw [beq_iff_eq, Option.some_inj, hcompare]
    exact (and_iff_right rfl).symm
  · exact iff_of_false nofun (fun h => nomatch h.1)
  · exact iff_of_false nofun (fun h => nomatch h.1)
  · show (some ((compare e f).then (compare m n)).swap == some .eq) = true ↔ _
    rw [beq_iff_eq, Option.some_inj, Ordering.swap_eq_eq, hcompare]
    exact (and_iff_right rfl).symm

theorem beq_self (hx : form x ≠ .nan) : (x == x) = true := by
  have h := unpacks x
  show x.toModel.unpack.beq x.toModel.unpack = true
  generalize form x = f at *
  generalize x.toModel.unpack = u at *
  cases h with
  | nan => exact absurd rfl hx
  | infinite a => cases a <;> rfl
  | zero a => rfl
  | finite a pos => exact (beq_finite pos pos).2 ⟨rfl, rfl, rfl⟩

/-- Two doubles are equal if they are the same and no NaN, or both zero. -/
theorem beq_iff :
    (x == y) = true ↔
      (form x = form y ∧ form x ≠ .nan) ∨
        ∃ a b, form x = .finite a 0 ∧ form y = .finite b 0 := by
  have hunpacks := unpacks x
  have hunpacks' := unpacks y
  constructor
  · intro h
    replace h : x.toModel.unpack.beq y.toModel.unpack = true := h
    generalize form x = f at *
    generalize x.toModel.unpack = u at *
    generalize form y = g at *
    generalize y.toModel.unpack = v at *
    -- of two different shapes, whatever their signs, none are equal
    cases hunpacks with
    | nan => cases h
    | zero a =>
      cases hunpacks' with
      | zero b => exact .inr ⟨a, b, rfl, rfl⟩
      | infinite b | finite b => cases b <;> cases h
      | nan => cases h
    | infinite a =>
      cases hunpacks' with
      | infinite b => cases a <;> cases b <;> first | exact .inl ⟨rfl, nofun⟩ | cases h
      | zero b | finite b => cases a <;> cases h
      | nan => cases a <;> cases h
    | @finite a m k pos =>
      cases hunpacks' with
      | @finite b m' k' pos' =>
        obtain ⟨rfl, hk, rfl⟩ := (beq_finite pos pos').1 h
        obtain rfl : k = k' := by omega
        exact .inl ⟨rfl, nofun⟩
      | infinite b => cases a <;> cases b <;> cases h
      | zero b => cases a <;> cases h
      | nan => cases h
  · rintro (⟨h, hx⟩ | ⟨a, b, ha, hb⟩)
    · rw [← form_inj h hx]
      exact beq_self hx
    · show x.toModel.unpack.beq y.toModel.unpack = true
      rw [unpack_of_zero ha, unpack_of_zero hb]
      rfl

theorem form_zero : form 0 = .finite false 0 := by decide +kernel

/-- Both zeros are equal to `0`. -/
theorem beq_zero_eq (x : Float) : (x == 0) = (form x).isZero := by
  rw [Bool.eq_iff_iff, beq_iff, form_zero]
  cases form x with
  | nan | infinite => simp [Form.isZero]
  | finite negative n =>
    constructor
    · rintro (⟨h, -⟩ | ⟨a, b, h, -⟩) <;> cases h <;> rfl
    · intro h
      rw [Form.isZero, beq_iff_eq] at h
      exact .inr ⟨negative, false, by rw [h], rfl⟩

end Calculator.Binary64
