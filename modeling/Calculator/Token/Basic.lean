/-! # Tokens

    The tokens of the calculator's language: statement terminators, numbers,
    names and the words and symbols with a meaning of their own.
-/

namespace Calculator

namespace Token

/-- What a token is to the grammar. -/
inductive Kind where
  /-- Ends a statement and has its value printed. -/
  | terminator
  /-- Ends the session; also the end of the text. -/
  | quit
  | number
  | name
  | plus
  | minus
  | star
  | slash
  | percent
  | caret
  | bang
  | openParen
  | closeParen
  | openBrace
  | closeBrace
  | openBracket
  | closeBracket
  | bar
  | equals
  | comma
  /-- Opens the declaration of a variable. -/
  | letWord
  /-- Opens the declaration of a constant. -/
  | constWord
  /-- Opens an assignment. -/
  | setWord
  /-- The square root. -/
  | rootWord
deriving DecidableEq, Repr

namespace Kind

/-- The label of a kind in messages. -/
def label : Kind → String
  | terminator => "PRINT"
  | quit => "QUIT"
  | number => "NUMBER"
  | name => "IDENTIFIER"
  | plus => "PLUS"
  | minus => "MINUS"
  | star => "STAR"
  | slash => "SLASH"
  | percent => "PERCENT"
  | caret => "CARET"
  | bang => "BANG"
  | openParen => "LPAREN"
  | closeParen => "RPAREN"
  | openBrace => "LBRACE"
  | closeBrace => "RBRACE"
  | openBracket => "LBRACKET"
  | closeBracket => "RBRACKET"
  | bar => "BAR"
  | equals => "EQUAL"
  | comma => "COMMA"
  | letWord => "LET"
  | constWord => "CONST"
  | setWord => "SET"
  | rootWord => "SQRT"

/-- All kinds. -/
def all : List Kind :=
  [terminator, quit, number, name, plus, minus, star, slash, percent, caret, bang,
   openParen, closeParen, openBrace, closeBrace, openBracket, closeBracket, bar,
   equals, comma, letWord, constWord, setWord, rootWord]

/-- The kind with a given label. -/
def ofLabel? (s : String) : Option Kind := all.find? (·.label == s)

/-- The bracket that a message asks for when a kind is missing at the end of a
    group; only four kinds can close one. -/
def closingBracket? : Kind → Option Char
  | closeParen => some ')'
  | closeBrace => some '\x7d'
  | closeBracket => some ']'
  | bar => some '|'
  | _ => none

/-- The kind of a character that is a token by itself. -/
def ofSymbol? (c : Char) : Option Kind :=
  match c with
  | ';' | '\n' => some terminator
  | '(' => some openParen
  | ')' => some closeParen
  | '\x7b' => some openBrace
  | '\x7d' => some closeBrace
  | '[' => some openBracket
  | ']' => some closeBracket
  | '|' => some bar
  | '+' => some plus
  | '-' => some minus
  | '*' => some star
  | '/' => some slash
  | '%' => some percent
  | '^' => some caret
  | '!' => some bang
  | '=' => some equals
  | ',' => some comma
  | _ => none

end Kind

end Token

/-- A token with its spelling and place. -/
structure Token where
  kind : Token.Kind
  /-- The characters of the token; empty at the end of the text only. -/
  lexeme : String
  /-- The value of a number, zero for all other tokens. -/
  value : Float := 0
  /-- The column of its first character; `-1` for a token without a place. -/
  column : Int := -1
deriving DecidableEq

namespace Token

/-- A token as messages show it. -/
def text (t : Token) : String := "<" ++ t.kind.label ++ ">" ++ t.lexeme

/-- Whether a token stands for the end of the text. -/
def isEnd (t : Token) : Bool := t.kind = .quit && t.lexeme = ""

end Token

end Calculator
