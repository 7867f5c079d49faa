import Wildcard.Glob.Parts
import Wildcard.Options

/-!
# Patterns segment by segment

A pattern is cut at its bare separators, and each segment becomes a regex of its own. At the
beginning of a segment a guard keeps wildcards off names that begin with a dot, unless the options
say otherwise. A segment of nothing but two or more stars is a globstar: it matches any number of
whole segments, and is folded into its neighbours because it has to bring its own separators.

* `Glob.segment` gives the regex of one segment.
* `Segment.fold` folds globstars into their neighbours.
* `Segmentation.ofText` puts all together; `Segmentation.regex` is the regex for whole candidates.
-/

namespace Wildcard

/-! ## 1. Segments -/

/-- What a segment of a pattern is. -/
inductive SegmentKind where
  /-- No wildcard in it. -/
  | literal
  | glob
  /-- Two or more stars and nothing else. -/
  | globstar
  | empty
  deriving DecidableEq, Repr

namespace SegmentKind

/-- The word a kind is called by. -/
def name : SegmentKind → String
  | literal => "literal"
  | glob => "glob"
  | globstar => "globstar"
  | empty => "empty"

end SegmentKind

/-- A segment of a pattern, with its regex. -/
structure Segment where
  regex : Regex
  kind : SegmentKind
  /-- The text of the segment in the pattern. -/
  raw : List Char
  /-- Whether a globstar next to the segment was folded into it. -/
  globstar : Bool := false
  deriving DecidableEq, Repr

/-- The regex of one segment, and what kind of segment it is. -/
def Glob.segment (dot : Bool) (g : Glob) : Segment :=
  let raw := g.text
  if raw = [] then ⟨.done, .empty, raw, false⟩
  else if raw.length > 1 ∧ raw.all (· == '*') then ⟨.wholeSegment dot, .globstar, raw, false⟩
  else
    let value := (Glob.parts '/' false g).1.regex
    if g.isMagic then ⟨(if dot then .done else g.guard) ++ value, .glob, raw, false⟩
    else ⟨value, .literal, raw, false⟩

namespace Segment

/-- Folds globstars into the segments on their left: a run of globstars behind a segment adds any
    number of whole segments to it, and at the end of the pattern also a last separator. The flag
    of the result says that a run of globstars is left over at the beginning. -/
def foldRight (whole : Regex) : List Segment → Bool × List Segment
  | [] => (false, [])
  | s :: rest =>
    let (pending, folded) := foldRight whole rest
    if s.kind = .globstar then (true, folded)
    else if pending then
      let more := Regex.grouped (.separator whole) .star
      let last : Regex :=
        if folded.isEmpty then .single (.literal (.escaped '/')) .optional .done else .done
      (false, { s with regex := s.regex ++ (more ++ last), globstar := true } :: folded)
    else (false, s :: folded)

/-- Folds globstars into their neighbours; a pattern of nothing but globstars becomes one segment
    that matches the empty text and any number of whole segments. -/
def fold (whole : Regex) (segments : List Segment) : List Segment :=
  match foldRight whole segments with
  | (false, folded) => folded
  | (true, []) =>
    let all : Regex :=
      whole ++ (Regex.grouped (.separator whole) .star ++
        .single (.literal (.escaped '/')) .optional .done)
    [⟨Regex.grouped all .optional, .globstar, ['*', '*'], true⟩]
  | (true, s :: rest) =>
    { s with
      regex := Regex.grouped (whole ++ .separator .done) .star ++ s.regex, globstar := true } ::
        rest

end Segment

/-! ## 2. Whole patterns -/

/-- A pattern cut into segments. -/
structure Segmentation where
  /-- The text of the pattern. -/
  input : List Char
  /-- What the regex begins with. -/
  opening : Regex
  segments : List Segment
  /-- Whether the caller found the pattern negated; it is only kept. -/
  negated : Option Bool := none
  deriving DecidableEq, Repr

namespace Segmentation

/-- What every regex of a pattern ends with. -/
def closing : Regex := .anchor .stop .done

/-- The segments of a pattern with separators between them. -/
def joined : List Segment → Regex
  | [] => .done
  | [s] => s.regex
  | s :: rest => s.regex ++ .separator (joined rest)

/-- The regex for whole candidates. -/
def regex (s : Segmentation) : Regex := s.opening ++ (joined s.segments ++ closing)

/-- The text of the regex. -/
def source (s : Segmentation) : List Char := s.regex.text

end Segmentation

/-- The text of a pattern in front of which a candidate may have `./`, and the text without. -/
def currentDirectory? : List Char → Option (List Char)
  | '.' :: '/' :: rest => some rest
  | _ => none

/-- The segments of the pattern that a text is. Every text is a pattern. -/
def Segmentation.ofText (dot : Bool) (negated : Option Bool) (input : List Char) : Segmentation :=
  let (opening, body) : Regex × List Char :=
    match currentDirectory? input with
    | some rest =>
      (.anchor .start (Regex.grouped (.char '.' (.separator .done)) .optional), rest)
    | none => (.anchor .start .done, input)
  let segments : List Segment :=
    if body = [] then []
    else
      let (first, others) := (Glob.read body).splitOn '/'
      Segment.fold (.wholeSegment dot) ((first :: others).map (Glob.segment dot))
  { input, opening, segments, negated }

end Wildcard
