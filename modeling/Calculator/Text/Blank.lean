/-! # White space

    White space in the sense of Unicode: the ASCII controls `09`-`0D` and
    `1C`-`1F`, the space, next line, the no-break space and the separators.
    All of it but the line feed is a *blank*, which may stand between any two
    tokens.
-/

namespace Calculator.Text

/-- The code points of white space. -/
def whiteSpace : List Nat :=
  [0x09, 0x0A, 0x0B, 0x0C, 0x0D, 0x1C, 0x1D, 0x1E, 0x1F, 0x20, 0x85, 0xA0, 0x1680,
   0x2000, 0x2001, 0x2002, 0x2003, 0x2004, 0x2005, 0x2006, 0x2007, 0x2008, 0x2009, 0x200A,
   0x2028, 0x2029, 0x202F, 0x205F, 0x3000]

/-- Whether a character is white space. -/
def isSpace (c : Char) : Bool := whiteSpace.contains c.toNat

/-- Whether a character is white space other than the line feed. -/
def isBlank (c : Char) : Bool := c != '\n' && isSpace c

end Calculator.Text
