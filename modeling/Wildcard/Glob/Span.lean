import Wildcard.Glob.Reader

/-!
# Places in the text of a pattern

The delimiters of a pattern and the segments between its separators, both given by their places
in the text. `segmentSpans` finds the segments by walking over the text and counting how many
groups it is in; it needs no tree.
-/

namespace Wildcard.Glob

/-- The places of all openers that have a partner, each with the place of that partner, in the
    order of the openers. -/
def pairsOf (cs : List Char) : List (Nat × Nat) := (read cs).pairs 0

/-- The state of the walk: how many groups it is in, and where the segment began. -/
structure Walk where
  depth : Int := 0
  start : Nat := 0

/-- The spans of the segments: cut at each separator outside all groups. A character behind a
    backslash is passed over, wherever it stands; the flag says that the next one is. -/
def segmentSpansFrom (pairs : List (Nat × Nat)) :
    Bool → Walk → Nat → List Char → List (Nat × Nat)
  | _, w, i, [] => [(w.start, i)]
  | true, w, i, _ :: rest => segmentSpansFrom pairs false w (i + 1) rest
  | false, w, i, c :: rest =>
    if c = '\\' then segmentSpansFrom pairs true w (i + 1) rest
    else if pairs.any (·.1 == i) then
      segmentSpansFrom pairs false { w with depth := w.depth + 1 } (i + 1) rest
    else if pairs.any (·.2 == i) then
      segmentSpansFrom pairs false { w with depth := w.depth - 1 } (i + 1) rest
    else if c = '/' ∧ w.depth = 0 then
      (w.start, i) :: segmentSpansFrom pairs false { w with start := i + 1 } (i + 1) rest
    else segmentSpansFrom pairs false w (i + 1) rest

/-- The spans of the segments of a text, given its delimiters. -/
def segmentSpans (cs : List Char) (pairs : List (Nat × Nat)) : List (Nat × Nat) :=
  segmentSpansFrom pairs false {} 0 cs

/-- The text of a span. -/
def slice (cs : List Char) (span : Nat × Nat) : List Char := (cs.take span.2).drop span.1

end Wildcard.Glob
