/-! # Doubles as whole numbers of the least positive double

    Every finite double is `± n · 2⁻¹⁰⁷⁴` for a natural number `n`, its *units*.
    This file reads the units off the bits of a `Float` and writes them back.
    Whatever is not one of the arithmetic operations of `Float` itself
    (remainder, integrality, parity, reading and printing decimals) is defined
    on units, so that it is a statement about natural numbers.

    The bits without the sign are called the *code*. Codes are ordered as the
    magnitudes are: the finite ones come first, then infinity, then NaN.
-/

namespace Calculator.Binary64

/-! ## Codes -/

/-- The place value of the sign bit; the codes lie below it. -/
def signPlace : Nat := Nat.pow 2 63

/-- The number of codes that share their upper twelve bits. -/
def binadeSize : Nat := Nat.pow 2 52

/-- The code of infinity, one above that of the greatest finite double. -/
def infinityCode : Nat := 2047 * binadeSize

/-- The number of units in `1.0`. -/
def unitsPerOne : Nat := Nat.pow 2 1074

/-- The bits of `x` without the sign. -/
def code (x : Float) : Nat := x.toBits.toNat % signPlace

/-- Whether the sign bit of `x` is set; also true of `-0.0`. -/
def negative (x : Float) : Bool := signPlace ≤ x.toBits.toNat

/-- The double with a given sign and code. -/
def ofCode (sign : Bool) (c : Nat) : Float :=
  Float.ofBits (UInt64.ofNat (if sign then signPlace + c else c))

/-- Not a number. -/
def nan : Float := ofCode false (infinityCode + binadeSize / 2)

/-- The infinity of a given sign. -/
def infinity (sign : Bool) : Float := ofCode sign infinityCode

/-- The magnitude of `x` with the given sign. -/
def withSign (sign : Bool) (x : Float) : Float := ofCode sign (code x)

/-! ## Units -/

/-- The units of the finite magnitude with code `c`. In the first two binades the
    codes count the units one by one; from there on the step between neighbours
    doubles from one binade to the next. -/
def unitsOfCode (c : Nat) : Nat :=
  if c < 2 * binadeSize then c
  else (binadeSize + c % binadeSize) * Nat.pow 2 (c / binadeSize - 1)

/-- What a double denotes. -/
inductive Form where
  /-- `units · 2⁻¹⁰⁷⁴`, negated if `sign` is set. -/
  | finite (sign : Bool) (units : Nat)
  | infinite (sign : Bool)
  | nan
deriving DecidableEq, Repr

/-- The form of a double. -/
def form (x : Float) : Form :=
  if code x < infinityCode then .finite (negative x) (unitsOfCode (code x))
  else if code x = infinityCode then .infinite (negative x)
  else .nan

/-- How often the step between neighbours has doubled at `n` units. -/
def doublings (n : Nat) : Nat := n.log2 - 52

/-- The step between neighbouring doubles at `n` units. -/
def step (n : Nat) : Nat := Nat.pow 2 (doublings n)

end Calculator.Binary64
