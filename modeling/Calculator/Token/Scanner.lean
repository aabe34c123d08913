import Calculator.Token.Scan

/-! # Reading tokens with one token of lookahead

    A scanner hands out tokens one at a time and takes one back: the *slot*
    holds a token that was read but not used. It also remembers the token that
    it handed out last, unless that token was put back. Both decide how much
    input is discarded when a statement is given up: everything through the
    next terminator, which may still be unread, may wait in the slot, or may
    have been handed out as the very token that was not expected.
-/

namespace Calculator

open Text (Cursor)

/-- A source of tokens. -/
structure Scanner where
  cursor : Cursor
  keywords : Keywords
  /-- A token that was put back. -/
  slot : Option Token := none
  /-- The token that was handed out last and not put back. -/
  last : Option Token := none

namespace Scanner

/-- A scanner at the start of a text. -/
def ofText (keywords : Keywords) (text : List Char) : Scanner :=
  { cursor := .ofText text, keywords }

/-- The next token. -/
def get (s : Scanner) : Except Rejection Token × Scanner :=
  match s.slot with
  | some t => (.ok t, { s with slot := none, last := some t })
  | none =>
    match Token.scan s.keywords s.cursor with
    | (.ok t, cursor) => (.ok t, { s with cursor, last := some t })
    | (.error r, cursor) => (.error r, { s with cursor, last := none })

/-- Puts a token into the slot; fails with the token that is there, if any. -/
def putBack (t : Token) (s : Scanner) : Except Token Scanner :=
  match s.slot with
  | some held => .error held
  | none => .ok { s with slot := some t, last := none }

/-- What is said of a token that is put back into an occupied slot. -/
def occupiedText (held offered : Token) : String :=
  "Attempt to put back " ++ offered.text ++ " into a full buffer holding " ++ held.text

/-- Discards unread characters through the next one that is a token of the
    given kind, and counts those before it. -/
def skip (kind : Token.Kind) (s : Scanner) : Nat × Scanner :=
  let (count, cursor) := s.cursor.skipThrough (Token.Kind.ofSymbol? · = some kind)
  (count, { s with cursor, last := none })

/-- Discards input through the next token of the given kind. If that token had
    been read already, nothing more is discarded; otherwise the result has the
    number of unread characters that were. -/
def ignore (kind : Token.Kind) (s : Scanner) : Option Nat × Scanner :=
  let discard (s : Scanner) : Option Nat × Scanner :=
    let (count, s) := s.skip kind
    (some count, s)
  match s.slot with
  | some t =>
    if t.kind = kind then (none, { s with slot := none })
    else discard { s with slot := none }
  | none =>
    match s.last with
    | some t => if t.kind = kind then (none, s) else discard s
    | none => discard s

/-- How much is left to read: the characters of the text, and one more if there
    is a token in the slot other than the end of the text. Every token but that
    end is taken out of it. -/
def remaining (s : Scanner) : Nat :=
  s.cursor.rest.length + s.slot.elim 0 fun t => if t.isEnd then 0 else 1

end Scanner

end Calculator
