import Wildcard.Document.Scalar

/-!
# Tokens of a document

A document is cut into scalars, the marks of lists and mappings between brackets, and the marks
that dashes, question marks, colons and indentation stand for. Lists and mappings that are written
by indentation begin with a token of their own and end where a line is indented less.

Whether a scalar is the key of a mapping is known only at the colon behind it. So the place of
every scalar or bracket that could be a key is remembered until its line ends, and the tokens that
say so are put in afterwards. A place where only a key can stand must turn out to be one.

A document that breaks the rules has no tokens (`none`); which rule it breaks is not told. Neither
has one with a directive, an anchor, an alias, a tag, or a text written as a block: these are the
parts of the format that are not read here, and that is said.
-/

namespace Wildcard.Document

/-! ## 1. Tokens -/

/-- A token of a document. -/
inductive Token where
  | documentStart
  | documentEnd
  | blockList
  | blockMapping
  | blockEnd
  | listOpen
  | listClose
  | mappingOpen
  | mappingClose
  | item
  | comma
  | key
  | value
  /-- A lone exclamation mark, which leaves the kind of the next node open. -/
  | unspecified
  | scalar (text : List Char) (plain : Bool)
  deriving DecidableEq, Repr

/-- Why a document has no tokens. -/
inductive TokenError where
  | malformed
  /-- It is written with a part of the format that is not read here. -/
  | beyond
  deriving DecidableEq, Repr

/-- Whether a character begins a part of the format that is not read here. -/
def isBeyond (c : Char) : Bool := c ∈ ['%', '&', '*', '!', '|', '>']

/-- A place that may turn out to begin a key. -/
structure KeyPlace where
  /-- How many tokens stand before it. -/
  tokens : Nat
  /-- Whether nothing but a key can stand there. -/
  required : Bool
  index : Nat
  line : Nat
  column : Nat

/-- How many characters a key may reach over. -/
def maxKeyLength : Nat := 1024

/-- The state of cutting a document. -/
structure Cutting where
  cursor : Cursor
  tokens : List Token := []
  /-- The column of the innermost list or mapping written by indentation; below zero outside. -/
  indent : Int := -1
  /-- The columns of those around it. -/
  outer : List Int := []
  /-- The places that may begin a key: within the innermost brackets, and within those around. -/
  keys : Option KeyPlace × List (Option KeyPlace) := (none, [])
  /-- Whether a key may begin here. -/
  keyAllowed : Bool := true

namespace Cutting

/-! ## 2. Steps -/

/-- Whether the place is between brackets. -/
def inFlow (s : Cutting) : Bool := !s.keys.2.isEmpty

/-- The state with one more token. -/
def emit (s : Cutting) (t : Token) : Cutting := { s with tokens := s.tokens ++ [t] }

/-- The state with a token put in before those from the given place on. -/
def emitAt (s : Cutting) (place : Nat) (t : Token) : Cutting :=
  { s with tokens := s.tokens.take place ++ t :: s.tokens.drop place }

/-- Past blanks, comments and line breaks. A line break allows a key, except between brackets. -/
def skipBlanks : Nat → Cutting → Cutting
  | 0, s => s
  | fuel + 1, s =>
    let (_, c) := s.cursor.takeWhile (· == ' ')
    let c := if c.next = some '#' then (c.takeWhile fun x => !isLineBreak x).2 else c
    match c.lineBreak? with
    | some (_, c) => skipBlanks fuel { s with cursor := c, keyAllowed := s.keyAllowed || !s.inFlow }
    | none => { s with cursor := c }

/-- A place is forgotten once its line has ended or the key would be too long; a required one must
    not be. -/
def keepKey (c : Cursor) : Option KeyPlace → Option (Option KeyPlace)
  | none => some none
  | some k =>
    if k.line ≠ c.line ∨ c.index - k.index > maxKeyLength then
      if k.required then none else some none
    else some (some k)

/-- Forgets the places whose lines have ended. -/
def dropStale (s : Cutting) : Option Cutting := do
  let first ← keepKey s.cursor s.keys.1
  let others ← s.keys.2.mapM (keepKey s.cursor)
  return { s with keys := (first, others) }

/-- Forgets the place within the innermost brackets; it must not be a required one. -/
def dropKey (s : Cutting) : Option Cutting :=
  match s.keys.1 with
  | some k => if k.required then none else some { s with keys := (none, s.keys.2) }
  | none => some s

/-- Remembers the place as one that may begin a key. -/
def saveKey (s : Cutting) : Option Cutting :=
  if s.keyAllowed then
    let c := s.cursor
    let required := !s.inFlow && s.indent == (c.column : Int)
    match s.dropKey with
    | some s =>
      some { s with keys := (some ⟨s.tokens.length, required, c.index, c.line, c.column⟩, s.keys.2) }
    | none => none
  else some s

/-- Ends the lists and mappings that are indented by more than the given column. -/
def unwind (column : Int) : List Int → Cutting → Cutting
  | [], s => s
  | i :: outer, s =>
    if s.indent > column then unwind column outer ({ s with indent := i, outer }.emit .blockEnd)
    else s

/-- Ends them unless the place is between brackets. -/
def unwindTo (column : Int) (s : Cutting) : Cutting :=
  if s.inFlow then s else unwind column s.outer s

/-- Begins a list or mapping at a column if it is indented by more than the one around it; its
    token is put in at the given place. -/
def indentAt (column place : Nat) (t : Token) (s : Cutting) : Cutting :=
  if s.indent < column then
    { s with indent := column, outer := s.indent :: s.outer }.emitAt place t
  else s

/-- Emits a token for some characters. -/
def take (n : Nat) (t : Token) (s : Cutting) : Cutting :=
  { s with cursor := s.cursor.skip n }.emit t

/-- A line that begins or ends a document. -/
def boundary (t : Token) (s : Cutting) : Option Cutting := do
  let s ← (s.unwindTo (-1)).dropKey
  return { s with keyAllowed := false }.take 3 t

/-- An opening bracket. -/
def openFlow (t : Token) (s : Cutting) : Option Cutting := do
  let s ← s.saveKey
  return { s with keys := (none, s.keys.1 :: s.keys.2), keyAllowed := true }.take 1 t

/-- A closing bracket. -/
def closeFlow (t : Token) (s : Cutting) : Option Cutting := do
  let s ← s.dropKey
  match s.keys.2 with
  | k :: outer => return { s with keys := (k, outer), keyAllowed := false }.take 1 t
  | [] => none

/-- A comma between brackets. -/
def flowComma (s : Cutting) : Option Cutting := do
  let s ← { s with keyAllowed := true }.dropKey
  return s.take 1 .comma

/-- A dash in front of an item. -/
def blockItem (s : Cutting) : Option Cutting := do
  if s.inFlow then
    let s ← { s with keyAllowed := true }.dropKey
    return s.take 1 .item
  else if s.keyAllowed then
    let s ← (s.indentAt s.cursor.column s.tokens.length .blockList).dropKey
    return { s with keyAllowed := true }.take 1 .item
  else none

/-- A question mark in front of a key. -/
def explicitKey (s : Cutting) : Option Cutting := do
  if s.inFlow then
    let s ← { s with keyAllowed := false }.dropKey
    return s.take 1 .key
  else if s.keyAllowed then
    let s ← (s.indentAt s.cursor.column s.tokens.length .blockMapping).dropKey
    return { s with keyAllowed := true }.take 1 .key
  else none

/-- A colon in front of a value: behind a place that may begin a key, it makes it one. -/
def mappingValue (s : Cutting) : Option Cutting := do
  match s.keys.1 with
  | some k =>
    let s := { s with keys := (none, s.keys.2) }.emitAt k.tokens .key
    let s := if s.inFlow then s else s.indentAt k.column k.tokens .blockMapping
    return { s with keyAllowed := false }.take 1 .value
  | none =>
    if s.inFlow then return { s with keyAllowed := false }.take 1 .value
    else if s.keyAllowed then
      let s ← (s.indentAt s.cursor.column s.tokens.length .blockMapping).dropKey
      return { s with keyAllowed := true }.take 1 .value
    else none

/-- A scalar in quotes. -/
def quotedScalar (quote : Char) (s : Cutting) : Option Cutting := do
  let s ← s.saveKey
  let (text, c) ← readQuoted quote s.cursor
  return { s with cursor := c, keyAllowed := false }.emit (.scalar text false)

/-- A plain scalar. -/
def plainScalar (s : Cutting) : Option Cutting := do
  let s ← s.saveKey
  let r := readPlain s.inFlow (s.indent + 1) s.cursor
  return { s with cursor := r.cursor, keyAllowed := r.broken }.emit (.scalar r.text true)

/-- A lone exclamation mark. -/
def unspecifiedNode (s : Cutting) : Option Cutting := do
  let s ← s.saveKey
  return { s with keyAllowed := false }.take 1 .unspecified

/-- The steps that take the next token or tokens, by the character they begin with. -/
def token (s : Cutting) (x : Char) : Option Cutting :=
  let c := s.cursor
  let wordEnds := endsWord c.rest[1]?
  if c.atMarker '-' then s.boundary .documentStart
  else if c.atMarker '.' then s.boundary .documentEnd
  else if x = '[' then s.openFlow .listOpen
  else if x = '{' then s.openFlow .mappingOpen
  else if x = ']' then s.closeFlow .listClose
  else if x = '}' then s.closeFlow .mappingClose
  else if x = ',' then s.flowComma
  else if x = '-' ∧ wordEnds then s.blockItem
  else if x = '?' ∧ (s.inFlow ∨ wordEnds) then s.explicitKey
  else if x = ':' ∧ (s.inFlow ∨ wordEnds) then s.mappingValue
  else if x = '!' ∧ wordEnds then s.unspecifiedNode
  else if x = '\'' ∨ x = '"' then s.quotedScalar x
  else if startsPlain s.inFlow c then s.plainScalar
  else none

/-- Past what separates tokens. -/
def separate (s : Cutting) : Option Cutting :=
  (s.skipBlanks (s.cursor.rest.length + 1)).dropStale.map fun s => s.unwindTo s.cursor.column

/-- Cuts until the end is reached. -/
def run : Nat → Cutting → Except TokenError (List Token)
  | 0, _ => .error .malformed
  | fuel + 1, s =>
    match s.separate with
    | none => .error .malformed
    | some s =>
      match s.cursor.next with
      | none =>
        match (s.unwindTo (-1)).dropKey with
        | some s => .ok s.tokens
        | none => .error .malformed
      | some x =>
        match s.token x with
        | some s => run fuel s
        | none => .error (if isBeyond x then .beyond else .malformed)

end Cutting

/-- The tokens of a document. -/
def tokens (text : List Char) : Except TokenError (List Token) :=
  if text.all isAllowed then
    let start : Cursor :=
      match text with
      | c :: rest => if c = byteOrderMark then { rest, index := 1 } else { rest := text }
      | [] => { rest := [] }
    Cutting.run (text.length + 1) { cursor := start }
  else .error .malformed

end Wildcard.Document
