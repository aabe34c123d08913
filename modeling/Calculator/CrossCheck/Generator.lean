import Calculator.CrossCheck.Sample

/-! # Drawing samples

    Samples are made from a sequence of draws, each a number of thousandths
    below one. When the sequence has run out, further draws are zero. The order
    in which the draws are used is part of the definition, so that the same
    sequence always makes the same sample.
-/

namespace Calculator.CrossCheck

/-- A sequence of draws that is being used up. -/
structure Draws where
  upcoming : List Nat
  /-- How many draws were made, also of those after the last one. -/
  used : Nat := 0
deriving DecidableEq, Repr

/-- Something made from draws. -/
abbrev Gen := StateM Draws

namespace Gen

/-- The next draw. -/
def draw : Gen Nat := fun d =>
  (d.upcoming.headD 0, { upcoming := d.upcoming.tail, used := d.used + 1 })

/-- True with a probability in thousandths. -/
def chance (thousandths : Nat) : Gen Bool := do return (← draw) < thousandths

/-- A number from `first` to `last`. -/
def between (first last : Nat) : Gen Nat := do return first + (← draw) % (last - first + 1)

/-- One of several things, the first of them given apart. -/
def choose {α : Type} (first : α) (others : List α) : Gen α := do
  let i := (← draw) % (others.length + 1)
  return (first :: others).getD i first

/-- Applies a step a number of times. -/
def times {α : Type} (step : α → Gen α) : Nat → α → Gen α
  | 0, x => pure x
  | n + 1, x => do times step n (← step x)

/-- A number. Of the two forms with a point, both are drawn before one of them
    is chosen. -/
def literal : Gen Literal := do
  if ← chance 500 then return .whole (← between 0 20)
  else
    let hundredths ← draw
    let tenth ← between 1 9
    choose (.hundredths hundredths) [.tenth tenth]

/-- A power of a factor drawn from `outer`; the exponent is drawn from
    `inner`. -/
def power (outer inner : Gen (Sample .factor)) : Gen (Sample .power) := do
  let base ← outer
  if ← chance 200 then return .raised base (← inner)
  else return .factor base

/-- A product of at most three powers. -/
def term (outer inner : Gen (Sample .factor)) : Gen (Sample .term) := do
  let first ← power outer inner
  let more ← between 0 2
  times (fun x => do
    let op ← choose .mul [.div, .mod]
    return .product x op (← power outer inner)) more (.power first)

/-- A sum of at most three terms. -/
def expression (outer inner : Gen (Sample .factor)) : Gen (Sample .expression) := do
  let first ← term outer inner
  let more ← between 0 2
  times (fun x => do
    let op ← choose .add [.sub]
    return .sum x op (← term outer inner)) more (.term first)

/-- A factor with at most `depth` levels of signs and brackets. -/
def factor : (depth : Nat) → Gen (Sample .factor)
  | 0 => Sample.literal <$> literal
  | depth + 1 => do
    if ← chance 400 then return .literal (← literal)
    else if ← chance 200 then return .negated (← factor depth)
    else
      let enclosure ← choose Enclosure.parens [.braces, .brackets, .bars]
      return .enclosed enclosure (← expression (factor depth)
        (match depth with
         | 0 => factor 0
         | depth + 1 => factor depth))

/-- A sample of any tier. -/
def sample (tier : Tier) (depth : Nat) : Gen (Sample tier) :=
  match tier with
  | .factor => factor depth
  | .power => power (factor depth) (factor (depth - 1))
  | .term => term (factor depth) (factor (depth - 1))
  | .expression => expression (factor depth) (factor (depth - 1))

end Gen

end Calculator.CrossCheck
