import Calculator.Token.Scan

/-! # Dialects

    A dialect fixes which words are keywords, which brackets group, and whether
    bars take the absolute value. The full dialect is the usual one; the classic
    one has no constants to declare and no brackets but parentheses.
-/

namespace Calculator

/-- A variant of the language. -/
structure Dialect where
  keywords : Keywords
  /-- The brackets that group, each with the one that closes it. -/
  groupings : List (Token.Kind × Token.Kind)
  /-- Whether `|x|` is the absolute value. -/
  absoluteValue : Bool := true
deriving DecidableEq, Repr

namespace Dialect

/-- The kind that closes a group opened by a token; none if it opens none. The
    end of the text opens no group. -/
def closing? (d : Dialect) (t : Token) : Option Token.Kind :=
  if t.isEnd then none else d.groupings.lookup t.kind

/-- All keywords, three bracket pairs and bars. -/
def full : Dialect where
  keywords :=
    [("let", .letWord), ("const", .constWord), ("set", .setWord), ("exit", .quit),
     ("quit", .quit), ("sqrt", .rootWord)]
  groupings :=
    [(.openParen, .closeParen), (.openBrace, .closeBrace), (.openBracket, .closeBracket)]

/-- The full dialect without constants, braces, square brackets and bars. -/
def classic : Dialect where
  keywords := full.keywords.filter (·.2 ≠ .constWord)
  groupings := [(.openParen, .closeParen)]
  absoluteValue := false

/-- The dialects that can be asked for by name, in the order of their names. -/
def named : List (String × Dialect) := [("classic", classic), ("full", full)]

end Dialect

end Calculator
