import Wildcard.Nesting
import Wildcard.Glob.Basic
import Wildcard.Glob.Bracket

/-!
# Reading a pattern

A pattern is read from left to right. First it is cut into marks: characters behind a backslash,
whole bracket classes, and single characters. Then the groups are found with a stack: an opener
starts a new chain, a closer that fits the innermost open group wraps that chain up, and any other
closer is a bare character. At most `maxNesting` groups are open at a time, an opener beyond that
is a bare character, and so is an opener still open at the end.
-/

namespace Wildcard.Glob

/-! ## 1. Marks -/

/-- A piece of a pattern within which no group can open or close. -/
inductive Mark where
  | char (c : Char)
  | escaped (c : Char)
  | bracket (body : List Char)
  deriving DecidableEq, Repr

/-- The text of a mark. -/
def Mark.text : Mark → List Char
  | char c => [c]
  | escaped c => ['\\', c]
  | bracket body => '[' :: body ++ [']']

/-- Cuts a text into marks, given what lies ahead of its places. The number counts the characters
    still to be passed over because they belong to the mark before. -/
def marks : Nat → List Char → List Bracket.Ahead → List Mark
  | _, [], _ => []
  | n + 1, _ :: rest, table => marks n rest table.tail
  | 0, '\\' :: c :: rest, table => .escaped c :: marks 0 rest table.tail.tail
  | 0, c :: rest, table =>
    match if c = '[' then Bracket.closing? rest table.tail else none with
    | some n => .bracket (rest.take n) :: marks (n + 1) rest table.tail
    | none => .char c :: marks 0 rest table.tail

/-- The marks of a text. -/
def marksOf (cs : List Char) : List Mark := marks 0 cs (Bracket.lookahead cs)

/-! ## 2. Groups -/

/-- How many groups may be open at a time. -/
def maxNesting : Nat := 64

/-- The kind of group that a character opens. -/
def opens? : Char → Option Grouping
  | '{' => some .braces
  | '(' => some .parens
  | _ => none

/-- What is remembered of an open group: its kind, and the chain in front of it, last item
    first. -/
structure Before where
  grouping : Grouping
  items : Glob

/-- The state of reading: the open groups, and the chain read in the innermost one, last item
    first. -/
structure Reading where
  nesting : Nesting Before := {}
  items : Glob := .done

/-- The chain read so far with one more item. -/
def Reading.add (r : Reading) (item : Glob → Glob) : Reading := { r with items := item r.items }

/-- Reads one mark. -/
def Reading.step (r : Reading) : Mark → Reading
  | .escaped c => r.add (.escaped c)
  | .bracket body => r.add (.bracket body)
  | .char c =>
    match opens? c with
    | some g =>
      if r.nesting.depth < maxNesting then
        { nesting := r.nesting.push (.ofChar c) ⟨g, r.items⟩, items := .done }
      else r.add (.char c)
    | none =>
      match if c = '}' ∨ c = ')' then r.nesting.close (.ofChar c) else none with
      | some (o, nesting) =>
        { nesting, items := .group o.place.grouping (r.items.reverseOnto .done) o.place.items }
      | none => r.add (.char c)

/-- What was read, with the openers that are still open as bare characters, in front of `rest`. -/
def unwind : List (Opener Before) → Glob → Glob → Glob
  | [], items, rest => items.reverseOnto rest
  | o :: outer, items, rest =>
    unwind outer o.place.items (.char o.place.grouping.opener (items.reverseOnto rest))

/-- The pattern that a list of marks stands for. -/
def ofMarks (ms : List Mark) : Glob :=
  let r := ms.foldl Reading.step {}
  unwind r.nesting.openers r.items .done

/-- Reads a pattern from its text. -/
def read (cs : List Char) : Glob := ofMarks (marksOf cs)

end Wildcard.Glob
