/-!
# Places in a document

A cursor is what is left of a document from some place on, with the line and column of that place.
Lines end at line feeds, next-line characters and the line and paragraph separators; other line
ends have been replaced by line feeds before (`unifyLineEnds`).
-/

namespace Wildcard.Document

/-! ## 1. Characters -/

/-- Whether a line ends at the character. -/
def isLineBreak (c : Char) : Bool := c == '\n' || c == '\x85' || c == '\u2028' || c == '\u2029'

/-- Whether a word ends before what comes next: the end, a blank or a line break. -/
def endsWord : Option Char → Bool
  | none => true
  | some c => c == ' ' || c == '\t' || isLineBreak c

/-- The mark that may stand at the very beginning of a document. -/
def byteOrderMark : Char := '\ufeff'

/-- Whether a character may stand in a document. -/
def isAllowed (c : Char) : Bool :=
  let n := c.toNat
  c == '\t' || c == '\n' || c == '\r' || decide (0x20 ≤ n ∧ n ≤ 0x7E) || n == 0x85 ||
    decide (0xA0 ≤ n ∧ n ≤ 0xFFFD) || decide (0x10000 ≤ n)

/-- Replaces each carriage return, with the line feed behind it if there is one, by a line
    feed. -/
def unifyLineEnds : List Char → List Char
  | '\r' :: '\n' :: rest => '\n' :: unifyLineEnds rest
  | '\r' :: rest => '\n' :: unifyLineEnds rest
  | c :: rest => c :: unifyLineEnds rest
  | [] => []

/-! ## 2. Cursors -/

/-- A place in a document. -/
structure Cursor where
  rest : List Char
  /-- How many characters stand before the place. -/
  index : Nat := 0
  line : Nat := 0
  column : Nat := 0

namespace Cursor

/-- The next character. -/
def next (c : Cursor) : Option Char := c.rest.head?

/-- One character further. -/
def advance (c : Cursor) : Cursor :=
  match c.rest with
  | [] => c
  | x :: rest =>
    if isLineBreak x then { rest, index := c.index + 1, line := c.line + 1, column := 0 }
    else if x = byteOrderMark then { c with rest, index := c.index + 1 }
    else { c with rest, index := c.index + 1, column := c.column + 1 }

/-- Some characters further. -/
def skip : Nat → Cursor → Cursor
  | 0, c => c
  | n + 1, c => skip n c.advance

/-- Past the characters that pass a test, which are also given. -/
def takeWhile (p : Char → Bool) (c : Cursor) : List Char × Cursor :=
  let taken := c.rest.takeWhile p
  (taken, c.skip taken.length)

/-- Past a line break, if the place is at one, with the character it counts as in a text. -/
def lineBreak? (c : Cursor) : Option (Char × Cursor) :=
  match c.next with
  | some x =>
    if isLineBreak x then some (if x = '\x85' then '\n' else x, c.advance) else none
  | none => none

/-- Whether a line of three equal marks begins here. -/
def atMarker (mark : Char) (c : Cursor) : Bool :=
  c.column == 0 && c.rest.take 3 == [mark, mark, mark] && endsWord c.rest[3]?

/-- Whether a line begins here that begins or ends a document. -/
def atBoundary (c : Cursor) : Bool := c.atMarker '-' || c.atMarker '.'

end Cursor

end Wildcard.Document
