import Calculator.Decimal.Numeral

/-! # Sample expressions

    The calculator is checked against a second notation for the same
    expressions: one in which every operation is bracketed, and the remainder,
    the power and the absolute value are function calls. A sample is an
    expression that has both notations. Its type follows the grammar, tier by
    tier, so that the calculator's notation needs no brackets but those that
    are part of the sample.
-/

namespace Calculator.CrossCheck

/-- A number that both notations write. -/
inductive Literal where
  /-- Whole in the calculator's notation, with a place after the point in the
      other one. -/
  | whole (n : Nat)
  /-- With two places after the point. -/
  | hundredths (n : Nat)
  /-- One place after the point, and nothing before it. -/
  | tenth (n : Nat)
deriving DecidableEq, Repr

/-- A number in the calculator's notation. -/
def Literal.code : Literal → String
  | .whole n => toString n
  | .hundredths n => toString (n / 100) ++ "." ++ toString (n / 10 % 10) ++ toString (n % 10)
  | .tenth n => "." ++ toString n

/-- A number in the bracketed notation. -/
def Literal.reference : Literal → String
  | .whole n => toString n ++ ".0"
  | l => l.code

/-- The value of a number in the bracketed notation. -/
def Literal.value (l : Literal) : Float :=
  (Numeral.scan? l.reference.toList).elim Binary64.nan Numeral.value

/-- A bracket pair of the full dialect. -/
inductive Enclosure where
  | parens
  | braces
  | brackets
  /-- The absolute value. -/
  | bars
deriving DecidableEq, Repr

/-- The opening bracket. -/
def Enclosure.opening : Enclosure → String
  | parens => "("
  | braces => "\x7b"
  | brackets => "["
  | bars => "|"

/-- The closing bracket. -/
def Enclosure.closing : Enclosure → String
  | parens => ")"
  | braces => "\x7d"
  | brackets => "]"
  | bars => "|"

/-- An operator of a sum. -/
inductive SumOp where
  | add
  | sub
deriving DecidableEq, Repr

/-- The symbol of the operator in both notations. -/
def SumOp.symbol : SumOp → String
  | add => "+"
  | sub => "-"

/-- An operator of a product. -/
inductive ProductOp where
  | mul
  | div
  | mod
deriving DecidableEq, Repr

/-- The symbol of the operator in the calculator's notation. -/
def ProductOp.symbol : ProductOp → String
  | mul => "*"
  | div => "/"
  | mod => "%"

/-- The tiers of the grammar. -/
inductive Tier where
  | factor
  | power
  | term
  | expression
deriving DecidableEq, Repr

/-- An expression of a given tier. -/
inductive Sample : Tier → Type where
  | literal (l : Literal) : Sample .factor
  | negated (x : Sample .factor) : Sample .factor
  | enclosed (pair : Enclosure) (x : Sample .expression) : Sample .factor
  | factor (x : Sample .factor) : Sample .power
  | raised (base exponent : Sample .factor) : Sample .power
  | power (x : Sample .power) : Sample .term
  | product (x : Sample .term) (op : ProductOp) (y : Sample .power) : Sample .term
  | term (x : Sample .term) : Sample .expression
  | sum (x : Sample .expression) (op : SumOp) (y : Sample .term) : Sample .expression
deriving Repr

namespace Sample

/-- A sample in the calculator's notation. -/
def code : {tier : Tier} → Sample tier → String
  | _, literal l => l.code
  | _, negated x => "-" ++ x.code
  | _, enclosed e x => e.opening ++ x.code ++ e.closing
  | _, factor x => x.code
  | _, raised base exponent => base.code ++ "^" ++ exponent.code
  | _, power x => x.code
  | _, product x op y => x.code ++ " " ++ op.symbol ++ " " ++ y.code
  | _, term x => x.code
  | _, sum x op y => x.code ++ " " ++ op.symbol ++ " " ++ y.code

/-- A call with two arguments. -/
def call (function first second : String) : String :=
  function ++ "(" ++ first ++ ", " ++ second ++ ")"

/-- A sample in the bracketed notation. -/
def reference : {tier : Tier} → Sample tier → String
  | _, literal l => l.reference
  | _, negated x => "(-" ++ x.reference ++ ")"
  | _, enclosed .bars x => "abs(" ++ x.reference ++ ")"
  | _, enclosed _ x => "(" ++ x.reference ++ ")"
  | _, factor x => x.reference
  | _, raised base exponent => call "math.pow" base.reference exponent.reference
  | _, power x => x.reference
  | _, product x .mod y => call "math.fmod" x.reference y.reference
  | _, product x op y => "(" ++ x.reference ++ " " ++ op.symbol ++ " " ++ y.reference ++ ")"
  | _, term x => x.reference
  | _, sum x op y => "(" ++ x.reference ++ " " ++ op.symbol ++ " " ++ y.reference ++ ")"

end Sample

end Calculator.CrossCheck
