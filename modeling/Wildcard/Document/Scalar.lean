import Wildcard.Document.Cursor
import Wildcard.Regex.Literal

/-!
# Scalars of a document

A scalar is a text, written plainly or in single or double quotes. A scalar may go on over several
lines: one line break then counts as a space, and of several the first one is dropped.

All functions here read at a cursor and give the cursor behind what they read. Where a loop is
not on the text itself, it is bounded by the length of what is left of the text, of which every
round takes something.
-/

namespace Wildcard.Document

/-! ## 1. Line breaks within a scalar -/

/-- The text that line breaks stand for: the first one, and those that follow it. -/
def folded (first : Char) (others : List Char) : List Char :=
  (if first ≠ '\n' then [first] else if others = [] then [' '] else []) ++ others

/-! ## 2. Plain scalars -/

/-- Characters that have a meaning of their own between brackets. -/
def isFlowMark (c : Char) : Bool := c ∈ [',', '[', ']', '{', '}']

/-- How many characters of a plain scalar come next without a blank: up to a blank, or a colon
    with a blank behind it, or, between brackets, a character with a meaning there. -/
def plainLength (inFlow : Bool) : List Char → Nat
  | [] => 0
  | c :: rest =>
    if endsWord (some c) || (c == ':' && (endsWord rest.head? || (inFlow && rest.head?.any isFlowMark)))
        || (inFlow && (isFlowMark c || c == '?')) then 0
    else plainLength inFlow rest + 1

/-- What separates two pieces of a plain scalar. -/
structure Gap where
  /-- The text it counts as; nothing if the scalar does not go on. -/
  text : List Char
  cursor : Cursor
  /-- Whether there was a line break. -/
  broken : Bool

/-- The line breaks and spaces behind a line break; `none` for the text if a line follows that
    begins or ends a document. -/
def breaksFrom : Nat → List Char → Cursor → Option (List Char) × Cursor
  | 0, found, c => (some found, c)
  | fuel + 1, found, c =>
    if c.next = some ' ' then breaksFrom fuel found c.advance
    else
      match c.lineBreak? with
      | some (b, c) =>
        if c.atBoundary then (none, c) else breaksFrom fuel (found ++ [b]) c
      | none => (some found, c)

/-- The gap at a cursor. -/
def gapAt (c : Cursor) : Gap :=
  let (spaces, c) := c.takeWhile (· == ' ')
  match c.lineBreak? with
  | none => ⟨spaces, c, false⟩
  | some (first, c) =>
    if c.atBoundary then ⟨[], c, true⟩
    else
      match breaksFrom c.rest.length [] c with
      | (some others, c) => ⟨folded first others, c, true⟩
      | (none, c) => ⟨[], c, true⟩

/-- A scalar that was read. -/
structure ScalarRead where
  text : List Char
  cursor : Cursor
  /-- Whether the scalar was followed by a line break that was read with it. -/
  broken : Bool := false

/-- Reads the pieces of a plain scalar. A piece on a later line must be indented by at least
    `indent` unless the scalar stands between brackets. -/
def plainFrom (inFlow : Bool) (indent : Int) : Nat → List Char → ScalarRead → ScalarRead
  | 0, _, s => s
  | fuel + 1, gap, s =>
    let n := plainLength inFlow s.cursor.rest
    if s.cursor.next = some '#' ∨ n = 0 then s
    else
      let text := s.text ++ gap ++ s.cursor.rest.take n
      let g := gapAt (s.cursor.skip n)
      let s : ScalarRead := ⟨text, g.cursor, g.broken⟩
      if g.text = [] ∨ g.cursor.next = some '#' ∨ (!inFlow ∧ (g.cursor.column : Int) < indent) then s
      else plainFrom inFlow indent fuel g.text s

/-- Reads a plain scalar. -/
def readPlain (inFlow : Bool) (indent : Int) (c : Cursor) : ScalarRead :=
  plainFrom inFlow indent c.rest.length [] ⟨[], c, false⟩

/-- Whether a plain scalar begins at a cursor: not with a character that has a meaning of its own
    there, unless a hyphen, or outside brackets a question mark or colon, is part of a word. -/
def startsPlain (inFlow : Bool) (c : Cursor) : Bool :=
  match c.next with
  | none => false
  | some x =>
    let marks : List Char :=
      ['-', '?', ':', ',', '[', ']', '{', '}', '#', '&', '*', '!', '|', '>', '\'', '"', '%', '@',
        '\x60']
    if endsWord (some x) then false
    else if x ∉ marks then true
    else !endsWord c.rest[1]? && (x == '-' || (!inFlow && (x == '?' || x == ':')))

/-! ## 3. Quoted scalars -/

/-- The character that an escape of one letter stands for. -/
def escapeLetter? : Char → Option Char
  | '0' => some '\x00'
  | 'a' => some '\x07'
  | 'b' => some '\x08'
  | 't' => some '\t'
  | '\t' => some '\t'
  | 'n' => some '\n'
  | 'v' => some '\x0b'
  | 'f' => some '\x0c'
  | 'r' => some '\r'
  | 'e' => some '\x1b'
  | ' ' => some ' '
  | '"' => some '"'
  | '\\' => some '\\'
  | '/' => some '/'
  | 'N' => some '\x85'
  | '_' => some '\u00a0'
  | 'L' => some '\u2028'
  | 'P' => some '\u2029'
  | _ => none

/-- How many hexadecimal digits follow the letter of an escape. -/
def escapeDigits? : Char → Option Nat
  | 'x' => some 2
  | 'u' => some 4
  | 'U' => some 8
  | _ => none

/-- The character that hexadecimal digits stand for. -/
def charOfDigits? (digits : List Char) : Option Char :=
  match digits.mapM Regex.hexDigit? with
  | some ds =>
    let n := ds.foldl (fun n d => 16 * n + d) 0
    if n.isValidChar then some (Char.ofNat n) else none
  | none => none

/-- The line breaks and blanks behind a line break in a quoted scalar; there must be no line that
    begins or ends a document. -/
def quotedBreaks : Nat → List Char → Cursor → Option (List Char × Cursor)
  | 0, found, c => some (found, c)
  | fuel + 1, found, c =>
    if c.atBoundary then none
    else
      let (_, c) := c.takeWhile fun x => x == ' ' || x == '\t'
      match c.lineBreak? with
      | some (b, c) => quotedBreaks fuel (found ++ [b]) c
      | none => some (found, c)

/-- Reads a double-quoted escape, the cursor being behind its backslash. -/
def readEscape (c : Cursor) : Option (List Char × Cursor) :=
  match c.next with
  | none => none
  | some x =>
    match escapeLetter? x, escapeDigits? x with
    | some y, _ => some ([y], c.advance)
    | none, some n =>
      let digits := c.advance.rest.take n
      if digits.length < n then none
      else (charOfDigits? digits).map fun y => ([y], c.advance.skip n)
    | none, none =>
      match c.lineBreak? with
      | some (_, c) => quotedBreaks (c.rest.length + 1) [] c
      | none => none

/-- Reads a quoted scalar from behind its first quote to behind its last one. -/
def quotedFrom (quote : Char) : Nat → List Char → Cursor → Option (List Char × Cursor)
  | 0, _, _ => none
  | fuel + 1, text, c =>
    match c.next with
    | none => none
    | some x =>
      if x = quote then
        if quote = '\'' ∧ c.advance.next = some '\'' then
          quotedFrom quote fuel (text ++ ['\'']) (c.skip 2)
        else some (text, c.advance)
      else if x = '\\' ∧ quote = '"' then
        match readEscape c.advance with
        | some (more, c) => quotedFrom quote fuel (text ++ more) c
        | none => none
      else if x = ' ' ∨ x = '\t' ∨ isLineBreak x then
        let (blanks, c) := c.takeWhile fun x => x == ' ' || x == '\t'
        match c.lineBreak? with
        | none => if c.next = none then none else quotedFrom quote fuel (text ++ blanks) c
        | some (first, c) =>
          match quotedBreaks (c.rest.length + 1) [] c with
          | some (others, c) => quotedFrom quote fuel (text ++ folded first others) c
          | none => none
      else quotedFrom quote fuel (text ++ [x]) c.advance

/-- Reads a quoted scalar at its first quote. -/
def readQuoted (quote : Char) (c : Cursor) : Option (List Char × Cursor) :=
  quotedFrom quote (c.rest.length + 1) [] c.advance

end Wildcard.Document
