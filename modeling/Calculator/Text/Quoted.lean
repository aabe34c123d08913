import Calculator.Text.Printable

/-! # Quoted text

    Names and characters that a message mentions stand in quotes. Single quotes
    are used, unless the text has single quotes and no double ones. The quote
    in use and the backslash are escaped by a backslash, tab, line feed and
    carriage return by a letter, and every other character without a visible
    form by its number in two, four or eight hexadecimal digits.
-/

namespace Calculator.Text

/-- `n` in lower-case hexadecimal, with zeros in front up to `width` digits. -/
def hex (width n : Nat) : List Char :=
  let digits := Nat.toDigits 16 n
  List.replicate (width - digits.length) '0' ++ digits

/-- The escape of a character by its number. -/
def numericEscape (c : Char) : List Char :=
  if c.toNat < 0x100 then '\\' :: 'x' :: hex 2 c.toNat
  else if c.toNat < 0x10000 then '\\' :: 'u' :: hex 4 c.toNat
  else '\\' :: 'U' :: hex 8 c.toNat

/-- A character as it stands between quotes of the given kind. -/
def escape (quote c : Char) : List Char :=
  if c = quote || c = '\\' then ['\\', c]
  else if c = '\t' then ['\\', 't']
  else if c = '\n' then ['\\', 'n']
  else if c = '\r' then ['\\', 'r']
  else if isPrintable c then [c]
  else numericEscape c

/-- The quote that a text is put in. -/
def quoteFor (cs : List Char) : Char :=
  if cs.contains '\x27' && !cs.contains '\x22' then '\x22' else '\x27'

/-- A text in quotes. -/
def quotedChars (cs : List Char) : List Char :=
  let quote := quoteFor cs
  quote :: (cs.flatMap (escape quote) ++ [quote])

/-- A string in quotes. -/
def quoted (s : String) : String := String.ofList (quotedChars s.toList)

/-- A character in quotes. -/
def quotedChar (c : Char) : String := String.ofList (quotedChars [c])

end Calculator.Text
