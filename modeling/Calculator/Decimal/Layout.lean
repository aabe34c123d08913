/-! # Laying out decimal digits

    A decimal is a row of significant digits and the exponent of the first one.
    `Layout.write` turns it into text: positionally (`120`, `0.0012`) where the
    exponent is moderate, with an exponent (`1.2e+16`) elsewhere. The two texts
    that the calculator writes for doubles, results and values quoted in
    messages, differ in their digits and in the `Layout`.
-/

namespace Calculator

/-- The decimal `d₁.d₂d₃… · 10 ^ exponent` with digits `d₁, d₂, d₃, …`. -/
structure Decimal where
  /-- At least one digit; neither the first nor the last is a zero, unless the
      decimal is zero. -/
  digits : List Char
  exponent : Int
deriving DecidableEq, Repr

namespace Decimal

/-- The decimal zero. -/
def zero : Decimal := ⟨['0'], 0⟩

/-- The list without the zeros at its end. -/
def trimZeros (digits : List Char) : List Char :=
  (digits.reverse.dropWhile (· = '0')).reverse

/-- The decimal `c · 10 ^ e`. -/
def ofScaled (c : Nat) (e : Int) : Decimal :=
  if c = 0 then zero
  else
    let digits := Nat.toDigits 10 c
    ⟨trimZeros digits, e + digits.length - 1⟩

end Decimal

/-- Where positional notation ends, and how it marks a whole number. -/
structure Layout where
  /-- Exponents from `-4` to just below this one are written positionally. -/
  positionalBelow : Int
  /-- What a positional number without a fraction ends with. -/
  wholeMark : List Char
deriving DecidableEq, Repr

namespace Layout

/-- An exponent with its sign and at least two digits. -/
def exponentText (e : Int) : List Char :=
  let digits := Nat.toDigits 10 e.natAbs
  (if e < 0 then '-' else '+') :: (List.replicate (2 - digits.length) '0' ++ digits)

/-- A decimal with its exponent written out. -/
def scientific (d : Decimal) : List Char :=
  let fraction := d.digits.drop 1
  d.digits.take 1 ++ (if fraction = [] then [] else '.' :: fraction) ++
    'e' :: exponentText d.exponent

/-- A decimal without an exponent. -/
def positional (wholeMark : List Char) (d : Decimal) : List Char :=
  if d.exponent < 0 then
    '0' :: '.' :: (List.replicate (-d.exponent - 1).toNat '0' ++ d.digits)
  else
    let places := d.exponent.toNat + 1
    let whole := d.digits.take places ++ List.replicate (places - d.digits.length) '0'
    match d.digits.drop places with
    | [] => whole ++ wholeMark
    | fraction => whole ++ '.' :: fraction

/-- The text of a decimal. -/
def write (l : Layout) (d : Decimal) : List Char :=
  if -4 ≤ d.exponent && d.exponent < l.positionalBelow then positional l.wholeMark d
  else scientific d

end Layout

end Calculator
