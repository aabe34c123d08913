import Mathlib.Algebra.Order.Field.Rat
import Mathlib.Algebra.Order.Ring.Abs
import Mathlib.Tactic.Linarith
import Mathlib.Tactic.LinearCombination
import Mathlib.Tactic.Positivity
import Mathlib.Tactic.Ring
import Calculator.Proofs.Binary64.Decimals
import Calculator.Proofs.Binary64.Forms

/-! # The double closest to a number

    `IsNearest q x` says what it is to round `q` to `x`, by the numbers that the
    doubles stand for and without a word on how `x` is found: no double is closer
    to `q`, of two that are equally close it is the one with the even significand,
    and from half a step above the greatest finite double on it is infinity. There is
    only one such double (`IsNearest.unique`), and `nearest` rounds to it
    (`isNearest_nearest`).

    The step at the size of `q` carries the proof. The double that is found is the
    multiple of the step that is closest to `q`, and every other double is a multiple
    of it too or lies below the binade of `q`.
-/

namespace Calculator

/-! ## Rounding a quotient -/

/-- What lies in the middle between two whole numbers goes to the even one. -/
theorem roundQuotient_even (num : Nat) {den : Nat} (hden : 0 < den)
    (h : 2 * num = 2 * (roundQuotient num den * den) + den ∨
      2 * num + den = 2 * (roundQuotient num den * den)) : roundQuotient num den % 2 = 0 := by
  have hsplit := Nat.div_add_mod' num den
  have hlt := Nat.mod_lt num hden
  have hsucc : (num / den + 1) * den = num / den * den + den := Nat.succ_mul ..
  unfold roundQuotient at *
  dsimp only at *
  split at h
  · omega
  · split at h
    · omega
    · next hlow hhigh =>
      rw [if_neg hlow, if_neg hhigh]
      omega

/-- A quotient is rounded to an even number from half a step below it on. -/
theorem roundQuotient_lt_even_iff (num : Nat) {den : Nat} (hden : 0 < den) (b : Nat) :
    roundQuotient num den < 2 * b ↔ 2 * num + den < 4 * (b * den) := by
  obtain ⟨hlow, hhigh⟩ := roundQuotient_error num hden
  have heven := roundQuotient_even num hden
  generalize roundQuotient num den = r at *
  constructor
  · intro hr
    have hscale : (r + 1) * den ≤ 2 * b * den := Nat.mul_le_mul_right den hr
    have hsplit : (r + 1) * den = r * den + den := Nat.succ_mul ..
    have hassoc : 2 * b * den = 2 * (b * den) := Nat.mul_assoc ..
    refine Nat.lt_of_not_le fun hnum => ?_
    -- The quotient would lie in the middle, and the odd number `2 * b - 1` below it.
    have hlast : (r + 1) * den = 2 * b * den := by omega
    have hodd : r + 1 = 2 * b := Nat.eq_of_mul_eq_mul_right hden hlast
    have hr := heven (.inl (by omega))
    omega
  · intro hnum
    refine Nat.lt_of_not_le fun hr => ?_
    have hscale : 2 * b * den ≤ r * den := Nat.mul_le_mul_right den hr
    have hassoc : 2 * b * den = 2 * (b * den) := Nat.mul_assoc ..
    omega

namespace Binary64

/-! ## Doubles as numbers -/

/-- A number of units with its sign. -/
def signedUnits (sign : Bool) (units : Nat) : Int := if sign then -units else units

/-- The number that a finite double stands for. -/
def toRat? (x : Float) : Option ℚ :=
  match form x with
  | .finite sign units => some (signedUnits sign units / 2 ^ 1074)
  | _ => none

theorem cast_unitsPerOne : (unitsPerOne : ℚ) = 2 ^ 1074 := by
  unfold unitsPerOne
  generalize 1074 = k
  exact Nat.cast_pow 2 k

/-- The number `q` is rounded to the double `x`, which has a positive sign. -/
structure IsNearest (q : ℚ) (x : Float) : Prop where
  positive : negative x = false
  /-- Infinity begins half a step above the greatest finite double. -/
  infinite_iff : x = infinity false ↔ 2 ^ 1024 - 2 ^ 970 ≤ q
  finite : q < 2 ^ 1024 - 2 ^ 970 → (toRat? x).isSome
  closest : ∀ {v}, toRat? x = some v → ∀ y w, toRat? y = some w → |q - v| ≤ |q - w|
  even : ∀ {v}, toRat? x = some v → ∀ y w, toRat? y = some w → w ≠ v → |q - v| = |q - w| →
    code x % 2 = 0

/-! ## The multiples of a step -/

/-- A multiple that is no farther than half a step leaves the others half a step away. -/
theorem le_two_mul_abs_of_ne {x p : ℚ} {r m : ℤ} (hr : 2 * |x - r * p| ≤ p) (hm : m ≠ r) :
    p ≤ 2 * |x - m * p| := by
  have hpos : 0 ≤ p := le_trans (by positivity) hr
  have hone : (1 : ℚ) ≤ |(m : ℚ) - r| := by
    have hint := Int.one_le_abs (sub_ne_zero.2 hm)
    exact_mod_cast hint
  have hapart : p ≤ |((m : ℚ) - r) * p| := by
    rw [abs_mul, abs_of_nonneg hpos]
    exact le_mul_of_one_le_left hpos hone
  have hsplit : ((m : ℚ) - r) * p = (x - r * p) - (x - m * p) := by ring
  have htriangle := abs_sub (x - r * p) (x - m * p)
  rw [← hsplit] at htriangle
  linarith

/-- A multiple that is no farther than half a step is the closest one. -/
theorem closest_multiple {x p : ℚ} {r m : ℤ} (hr : 2 * |x - r * p| ≤ p) :
    |x - r * p| ≤ |x - m * p| ∧ (m ≠ r → |x - r * p| = |x - m * p| → 2 * |x - r * p| = p) := by
  by_cases hm : m = r
  · exact ⟨by rw [hm], fun hne => absurd hm hne⟩
  · have hle := le_two_mul_abs_of_ne hr hm
    exact ⟨by linarith, fun _ heq => by linarith⟩

/-- A quotient is rounded to the closest multiple of a step. -/
theorem two_mul_abs_sub_roundQuotient (num : Nat) {den step : Nat} (hden : 0 < den)
    (hstep : 0 < step) :
    2 * |(num : ℚ) / den - (roundQuotient num (den * step) : Nat) * step| ≤ step ∧
      (2 * |(num : ℚ) / den - (roundQuotient num (den * step) : Nat) * step| = step →
        roundQuotient num (den * step) % 2 = 0) := by
  have hscale : 0 < den * step := Nat.mul_pos hden hstep
  obtain ⟨hlow, hhigh⟩ := roundQuotient_error num hscale
  have heven := roundQuotient_even num hscale
  generalize roundQuotient num (den * step) = r at *
  have hpos : (0 : ℚ) < den := Nat.cast_pos.2 hden
  have hquotient : (num : ℚ) / den * den = num := div_mul_cancel₀ _ hpos.ne'
  generalize (num : ℚ) / den = x at *
  -- both bounds are divided by `den`
  have hlow' : 2 * (r * (step : ℚ)) ≤ 2 * x + step := by
    refine le_of_mul_le_mul_right ?_ hpos
    have hcast : (2 * (r * (den * step)) : ℚ) ≤ 2 * num + den * step := by exact_mod_cast hlow
    linear_combination hcast - 2 * hquotient
  have hhigh' : 2 * x ≤ 2 * (r * (step : ℚ)) + step := by
    refine le_of_mul_le_mul_right ?_ hpos
    have hcast : (2 * num : ℚ) ≤ 2 * (r * (den * step)) + den * step := by exact_mod_cast hhigh
    linear_combination hcast + 2 * hquotient
  refine ⟨?_, fun htie => heven ?_⟩
  · have habs : |x - r * step| ≤ (step : ℚ) / 2 := abs_le.2 ⟨by linarith, by linarith⟩
    linarith
  · -- the distance is half a step, to one side or the other
    have hhalf : |x - r * step| = (step : ℚ) / 2 := by linarith
    obtain habove | hbelow := (abs_eq (by positivity)).1 hhalf
    · left
      have hcast : (2 * num : ℚ) = 2 * (r * (den * step)) + den * step := by
        linear_combination 2 * (den : ℚ) * habove - 2 * hquotient
      exact_mod_cast hcast
    · right
      have hcast : (2 * num + den * step : ℚ) = 2 * (r * (den * step)) := by
        linear_combination 2 * (den : ℚ) * hbelow - 2 * hquotient
      exact_mod_cast hcast

/-! ## Rounded significands -/

section binade
variable {num den : Nat}

/-- The units of a code, with the carry into the next binade. -/
theorem unitsOfCode_rounded {k r : Nat} (hr : r ≤ 2 * binadeSize) (hk : 0 < k → binadeSize ≤ r) :
    unitsOfCode (k * binadeSize + r) = r * 2 ^ k := by
  obtain hlt | rfl := Nat.lt_or_eq_of_le hr
  · obtain rfl | hpos := Nat.eq_zero_or_pos k
    · rw [Nat.zero_mul, Nat.zero_add, unitsOfCode_of_lt hlt, Nat.pow_zero, Nat.mul_one]
    · exact unitsOfCode_add hpos (hk hpos) hlt
  · have hcarry : k * binadeSize + 2 * binadeSize = (k + 1) * binadeSize + binadeSize := by
      rw [Nat.succ_mul k]
      omega
    have hpos := binadeSize_pos
    have hlt : binadeSize < 2 * binadeSize := by omega
    rw [hcarry, unitsOfCode_add (Nat.succ_pos k) (Nat.le_refl _) hlt, Nat.pow_succ]
    ac_rfl

/-! ## Overflow -/

/-- A step is at least twice a smaller one. -/
theorem two_mul_step_le {k top : Nat} (h : k < top) (den : Nat) :
    2 * (binadeSize * (den * 2 ^ k)) ≤ binadeSize * (den * 2 ^ top) :=
  calc 2 * (binadeSize * (den * 2 ^ k)) = binadeSize * (den * 2 ^ (k + 1)) := by
        rw [Nat.pow_succ]
        ac_rfl
    _ ≤ binadeSize * (den * 2 ^ top) :=
        Nat.mul_le_mul_left _ (Nat.mul_le_mul_left _ (Nat.pow_le_pow_right (by decide) h))

/-- The overflow threshold lies half a step above the greatest finite double, whose step
    has doubled `top` times. -/
theorem nearestCode_lt_infinityCode_iff {top : Nat} (htop : infinityCode = (top + 2) * binadeSize)
    (num : Nat) (hden : 0 < den) :
    nearestCode num den < infinityCode ↔
      2 * num + den * 2 ^ top < 4 * (binadeSize * (den * 2 ^ top)) := by
  have hcode := nearestCode_eq_min num den
  have hto := lt_binade num hden
  have hpos : den * 2 ^ top ≤ binadeSize * (den * 2 ^ top) :=
    Nat.le_mul_of_pos_left _ binadeSize_pos
  rw [Nat.mul_assoc] at hto
  rw [Nat.add_mul] at htop
  obtain hlt | heq | hgt := Nat.lt_trichotomy (doublings (num / den)) top
  · -- Below the last binade nothing overflows.
    have hbinades : (doublings (num / den) + 1) * binadeSize ≤ top * binadeSize :=
      Nat.mul_le_mul_right _ hlt
    have hstep := two_mul_step_le hlt den
    have hle := roundedSignificand_le num hden
    have hsize := binadeSize_pos
    rw [Nat.succ_mul] at hbinades
    exact iff_of_true (by omega) (by omega)
  · -- In the last binade the significand overflows when it is rounded up.
    have hfits := roundQuotient_lt_even_iff num (Nat.mul_pos hden (Nat.two_pow_pos top)) binadeSize
    have hcut : nearestCode num den < infinityCode ↔
        roundedSignificand num den < 2 * binadeSize := by
      rw [heq] at hcode
      omega
    rw [hcut, roundedSignificand, heq, hfits]
  · -- Behind the last binade everything overflows.
    have hbinades : (top + 1) * binadeSize ≤ doublings (num / den) * binadeSize :=
      Nat.mul_le_mul_right _ hgt
    have hstep := two_mul_step_le hgt den
    have hk : 0 < doublings (num / den) := Nat.lt_of_le_of_lt (Nat.zero_le _) hgt
    have hfrom := binade_le num hden hk
    have hge := le_roundedSignificand num hden hk
    rw [Nat.succ_mul] at hbinades
    exact iff_of_false (by omega) (by omega)

/-! ## The closest double -/

/-- Every double is a multiple of a step or lies below the first binade with that step. -/
theorem multiple_or_below (sign : Bool) (c k : Nat) :
    (∃ m : Int, signedUnits sign (unitsOfCode c) = m * 2 ^ k) ∨
      0 < k ∧ signedUnits sign (unitsOfCode c) < binadeSize * 2 ^ k := by
  obtain ⟨j, m, hm, -, -, hunits, -⟩ := exists_significand c
  rw [hunits]
  by_cases hle : k ≤ j
  · obtain ⟨i, rfl⟩ := Nat.exists_eq_add_of_le hle
    refine .inl ⟨signedUnits sign (m * 2 ^ i), ?_⟩
    unfold signedUnits
    split <;> push_cast <;> ring
  · -- fewer than 53 bits of a smaller step
    have hlt := Nat.not_le.1 hle
    refine .inr ⟨Nat.lt_of_le_of_lt (Nat.zero_le j) hlt, ?_⟩
    have hbelow : m * 2 ^ j < binadeSize * 2 ^ k :=
      calc m * 2 ^ j < 2 * binadeSize * 2 ^ j := Nat.mul_lt_mul_of_pos_right hm (Nat.two_pow_pos j)
        _ = binadeSize * 2 ^ (j + 1) := by rw [Nat.pow_succ]; ac_rfl
        _ ≤ binadeSize * 2 ^ k := Nat.mul_le_mul_left _ (Nat.pow_le_pow_right (by decide) hlt)
    have hcast : ((m * 2 ^ j : Nat) : Int) < binadeSize * 2 ^ k := by exact_mod_cast hbelow
    unfold signedUnits
    split <;> omega

/-- A code that is not cut off stands for the rounded significand. -/
theorem nearestCode_of_lt (hfinite : nearestCode num den < infinityCode) :
    nearestCode num den =
      doublings (num / den) * binadeSize + roundedSignificand num den := by
  rw [nearestCode_eq_min] at hfinite ⊢
  omega

theorem nearestCode_mod_two (hfinite : nearestCode num den < infinityCode) :
    nearestCode num den % 2 = roundedSignificand num den % 2 := by
  have heven : binadeSize % 2 = 0 := by decide
  rw [nearestCode_of_lt hfinite, Nat.add_mod, Nat.mul_mod, heven, Nat.mul_zero, Nat.zero_mod,
    Nat.zero_add, Nat.mod_mod]

theorem unitsOfCode_nearest (hden : 0 < den) (hfinite : nearestCode num den < infinityCode) :
    unitsOfCode (nearestCode num den) =
      roundedSignificand num den * 2 ^ doublings (num / den) := by
  rw [nearestCode_of_lt hfinite]
  exact unitsOfCode_rounded (roundedSignificand_le num hden) (le_roundedSignificand num hden)

/-- No double is closer to a quotient than the one that it is rounded to, and one that
    is equally close leaves it the even significand. -/
theorem closest_units (hden : 0 < den) (hfinite : nearestCode num den < infinityCode)
    (sign : Bool) (c : Nat) :
    |(num : ℚ) / den - unitsOfCode (nearestCode num den)| ≤
        |(num : ℚ) / den - signedUnits sign (unitsOfCode c)| ∧
      (signedUnits sign (unitsOfCode c) ≠ unitsOfCode (nearestCode num den) →
        |(num : ℚ) / den - unitsOfCode (nearestCode num den)| =
          |(num : ℚ) / den - signedUnits sign (unitsOfCode c)| →
        nearestCode num den % 2 = 0) := by
  obtain ⟨herror, heven⟩ := two_mul_abs_sub_roundQuotient num hden
    (Nat.two_pow_pos (doublings (num / den)))
  have hbinade := binade_le num hden
  have hother := multiple_or_below sign c (doublings (num / den))
  rw [nearestCode_mod_two hfinite, unitsOfCode_nearest hden hfinite]
  unfold roundedSignificand
  generalize signedUnits sign (unitsOfCode c) = z at *
  generalize doublings (num / den) = k at *
  generalize roundQuotient num (den * 2 ^ k) = r at *
  push_cast at herror heven ⊢
  have hmultiple (m : ℤ) := closest_multiple (m := m) (r := r) herror
  obtain ⟨m, rfl⟩ | ⟨hk, hbelow⟩ := hother
  · push_cast
    refine ⟨(hmultiple m).1, fun hne htie => heven ((hmultiple m).2 ?_ htie)⟩
    rintro rfl
    exact hne rfl
  · -- The first double of the binade is closer than everything below it.
    have hx : (binadeSize : ℚ) * 2 ^ k ≤ (num : ℚ) / den := by
      rw [le_div_iff₀ (Nat.cast_pos.2 hden)]
      have hcast : (binadeSize * (den * 2 ^ k) : ℚ) ≤ num := by exact_mod_cast hbinade hk
      linear_combination hcast
    have hz : (z : ℚ) < binadeSize * 2 ^ k := by exact_mod_cast hbelow
    have hfirst := (hmultiple binadeSize).1
    simp only [Int.cast_natCast] at hfirst
    rw [abs_of_nonneg (sub_nonneg.2 hx)] at hfirst
    rw [abs_of_nonneg (show 0 ≤ (num : ℚ) / den - z by linarith)]
    exact ⟨by linarith, fun _ htie => by linarith⟩

/-- The threshold as a number of units and as a number. -/
theorem lt_threshold_iff (num : Nat) (hden : 0 < den) (i j : Nat) :
    2 * num + den * 2 ^ (i + j + 1) < 4 * (binadeSize * (den * 2 ^ (i + j + 1))) ↔
      (num : ℚ) / den / 2 ^ j < 2 ^ (54 + i) - 2 ^ i := by
  have hpos : (0 : ℚ) < den := Nat.cast_pos.2 hden
  have hbinade : (binadeSize : ℚ) = 2 ^ 52 := by
    have hnat : binadeSize = 2 ^ 52 := by decide
    rw [hnat]
    norm_num
  have hthreshold : ((2 : ℚ) ^ (54 + i) - 2 ^ i) * 2 ^ j * den * 2 =
      4 * (2 ^ 52 * (den * 2 ^ (i + j + 1))) - den * 2 ^ (i + j + 1) := by
    rw [pow_add, pow_add, pow_add]
    ring
  rw [div_lt_iff₀ (by positivity), div_lt_iff₀ hpos, ← Nat.cast_lt (α := ℚ)]
  push_cast
  rw [hbinade]
  constructor <;> intro h <;> linarith

/-- Below the overflow threshold a quotient of units is rounded to a finite double. -/
theorem nearestCode_lt_infinityCode_iff_lt (num : Nat) (hden : 0 < den) :
    nearestCode num den < infinityCode ↔
      (num : ℚ) / den / 2 ^ 1074 < 2 ^ 1024 - 2 ^ 970 :=
  (nearestCode_lt_infinityCode_iff (by decide) num hden).trans (lt_threshold_iff num hden 970 1074)

/-! ## The numbers of doubles -/

/-- What it says of a double to stand for a number. -/
theorem toRat?_eq_some {x : Float} {v : ℚ} (h : toRat? x = some v) :
    code x < infinityCode ∧ v = signedUnits (negative x) (unitsOfCode (code x)) / 2 ^ 1074 := by
  unfold toRat? at h
  split at h
  · next sign units hform =>
    obtain ⟨hcode, rfl, rfl⟩ := form_eq_finite hform
    exact ⟨hcode, (Option.some.inj h).symm⟩
  · cases h

theorem toRat?_ofCode {c : Nat} (hc : c < infinityCode) :
    toRat? (ofCode false c) = some ((unitsOfCode c : ℚ) / 2 ^ 1074) := by
  rw [toRat?, form_ofCode false hc]
  rfl

theorem units_lt_units {c c' : Nat} (h : c < c') (hc : c' ≤ infinityCode) :
    (unitsOfCode c / 2 ^ 1074 : ℚ) < unitsOfCode c' / 2 ^ 1074 :=
  div_lt_div_of_pos_right (Nat.cast_lt.2 (unitsOfCode_lt h hc)) (by positivity)

/-- Of two finite doubles that a number is rounded to, none is above the other: both
    would have an even code, and the code between them stands for a closer double. -/
theorem IsNearest.code_le {q v w : ℚ} {x y : Float} (hx : IsNearest q x) (hy : IsNearest q y)
    (hv : toRat? x = some v) (hw : toRat? y = some w) : code y ≤ code x := by
  refine Nat.le_of_not_lt fun hlt => ?_
  obtain ⟨-, hxv⟩ := toRat?_eq_some hv
  obtain ⟨hcode, hyw⟩ := toRat?_eq_some hw
  rw [hx.positive] at hxv
  rw [hy.positive] at hyw
  have hle : code y ≤ infinityCode := Nat.le_of_lt hcode
  have hvw : v < w := by
    rw [hxv, hyw]
    exact units_lt_units hlt hle
  have hsame : |q - v| = |q - w| := le_antisymm (hx.closest hv y w hw) (hy.closest hw x v hv)
  have hmiddle : q - v = w - q := by
    obtain h | h := abs_eq_abs.1 hsame
    · exact absurd (sub_right_injective h) hvw.ne
    · rw [h, neg_sub]
  have heven := hx.even hv y w hw hvw.ne' hsame
  have heven' := hy.even hw x v hv hvw.ne hsame.symm
  have hbetween : code x + 1 < code y := by omega
  have hbelow : v < unitsOfCode (code x + 1) / 2 ^ 1074 := by
    rw [hxv]
    exact units_lt_units (Nat.lt_succ_self _) (Nat.le_trans (Nat.le_of_lt hbetween) hle)
  have habove : (unitsOfCode (code x + 1) / 2 ^ 1074 : ℚ) < w := by
    rw [hyw]
    exact units_lt_units hbetween hle
  have hfar := hx.closest hv _ _ (toRat?_ofCode (Nat.lt_trans hbetween hcode))
  generalize (unitsOfCode (code x + 1) / 2 ^ 1074 : ℚ) = u at *
  have hcloser : |q - u| < q - v := abs_lt.2 ⟨by linarith, by linarith⟩
  exact absurd hfar (not_le.2 (hcloser.trans_le (le_abs_self _)))

/-- A number is rounded to one double. -/
theorem IsNearest.unique {q : ℚ} {x y : Float} (hx : IsNearest q x) (hy : IsNearest q y) :
    x = y := by
  obtain hlt | hge := lt_or_ge q (2 ^ 1024 - 2 ^ 970)
  · obtain ⟨v, hv⟩ := Option.isSome_iff_exists.1 (hx.finite hlt)
    obtain ⟨w, hw⟩ := Option.isSome_iff_exists.1 (hy.finite hlt)
    exact eq_of_code_eq (Nat.le_antisymm (hy.code_le hx hw hv) (hx.code_le hy hv hw))
      (hx.positive.trans hy.positive.symm)
  · rw [hx.infinite_iff.2 hge, hy.infinite_iff.2 hge]

/-! ## Rounding -/

/-- Distances of numbers and of units. -/
theorem abs_div_sub_div {d : ℚ} (hd : 0 < d) (a b : ℚ) : |a / d - b / d| = |a - b| / d := by
  rw [← sub_div, abs_div, abs_of_pos hd]

/-- Rounding goes to the closest double. -/
theorem isNearest_nearest (num : Nat) (hden : 0 < den) :
    IsNearest ((num : ℚ) / den / 2 ^ 1074) (nearest false num den) := by
  have hle : nearestCode num den ≤ infinityCode := Nat.min_le_left _ _
  have hfinite := nearestCode_lt_infinityCode_iff_lt num hden
  have hcode : code (nearest false num den) = nearestCode num den := code_ofCode false hle
  have hpositive : negative (nearest false num den) = false := negative_ofCode false hle
  have hscale : (0 : ℚ) < 2 ^ 1074 := by positivity
  have hvalue {v : ℚ} (hv : toRat? (nearest false num den) = some v) :
      nearestCode num den < infinityCode ∧ v = unitsOfCode (nearestCode num den) / 2 ^ 1074 := by
    obtain ⟨hlt, hv⟩ := toRat?_eq_some hv
    rw [hcode, hpositive] at hv
    rw [hcode] at hlt
    exact ⟨hlt, hv⟩
  refine ⟨hpositive, ⟨fun h => ?_, fun h => ?_⟩, fun h => ?_, fun hv y w hw => ?_,
    fun hv y w hw hne htie => ?_⟩
  · have hinfinite : nearestCode num den = infinityCode := by
      rw [← hcode, h]
      exact code_ofCode false (Nat.le_refl _)
    exact not_lt.1 fun hlt => Nat.ne_of_lt (hfinite.2 hlt) hinfinite
  · have hinfinite : nearestCode num den = infinityCode :=
      Nat.le_antisymm hle (Nat.le_of_not_lt fun hlt => not_lt.2 h (hfinite.1 hlt))
    rw [nearest, hinfinite, infinity]
  · rw [nearest, toRat?_ofCode (hfinite.2 h)]
    rfl
  · obtain ⟨hlt, rfl⟩ := hvalue hv
    obtain ⟨-, rfl⟩ := toRat?_eq_some hw
    rw [abs_div_sub_div hscale, abs_div_sub_div hscale]
    exact div_le_div_of_nonneg_right (closest_units hden hlt _ _).1 hscale.le
  · obtain ⟨hlt, rfl⟩ := hvalue hv
    obtain ⟨-, rfl⟩ := toRat?_eq_some hw
    rw [abs_div_sub_div hscale, abs_div_sub_div hscale, div_left_inj' hscale.ne'] at htie
    rw [hcode]
    refine (closest_units hden hlt _ _).2 (fun heq => hne ?_) htie
    rw [heq, Int.cast_natCast]

end binade

end Binary64

end Calculator
