import Wildcard.Glob.Range
import Wildcard.Glob.Reader

/-!
# The regex of a pattern

A pattern is written as a regex item by item. A wildcard never matches a separator. What stands
between two bare delimiters of a level is a part: commas divide the contents of braces into parts,
bars those of parentheses, and separators the pattern itself.

* `Glob.parts` gives the regexes of all parts of a pattern, each with the text it stands for.
* `Glob.isMagic` tells whether a pattern is more than the text it is written as.
* `Glob.guard` keeps the wildcards of a part off names that begin with a dot.
-/

namespace Wildcard

/-! ## 1. Common regexes -/

namespace Regex

/-- Any character but a separator. -/
def Single.notSeparator : Single := .set true [.bare '/']

/-- A separator. -/
def separator (rest : Regex) : Regex := single (.literal (.escaped '/')) .once rest

/-- The next character is no dot. -/
def notDot (rest : Regex) : Regex := group .notAhead (char '.' done) .once rest

/-- Any whole segment, or any whole segment that does not begin with a dot. -/
def wholeSegment (dot : Bool) : Regex :=
  let some := single .notSeparator .plus done
  if dot then some else notDot some

/-- The end of a segment: a separator follows, or the text ends. -/
def segmentEnd : Regex := grouped (separator (bar (anchor .stop done))) .once

end Regex

/-! ## 2. Wildcards, groups and classes -/

namespace Glob

open Regex (grouped alternatives)

/-- The regex of a part of a pattern, with the text of that part. -/
structure Part where
  regex : Regex := .done
  text : List Char := []

namespace Part

/-- A part with something more in front. -/
def before (text : List Char) (f : Regex → Regex) (p : Part) : Part := ⟨f p.regex, text ++ p.text⟩

/-- Whether a part holds the beginning of a negated group, judging by its text alone. -/
def holdsNegation (p : Part) : Bool := occursIn p.text ['!', '(']
where
  occursIn : List Char → List Char → Bool
    | [], word => word.isEmpty
    | c :: rest, word => word.isPrefixOf (c :: rest) || occursIn rest word

/-- The alternatives of a list of parts. -/
def join (parts : Part × List Part) : Regex :=
  alternatives parts.1.regex (parts.2.map Part.regex)

end Part

/-- Whether a character in front of a group in parentheses gives it a meaning of its own. -/
def isGroupMark (c : Char) : Bool := c ∈ ['?', '*', '+', '@', '!']

/-- A group in parentheses with a mark in front, before the rest of its part. A negated group
    matches what its alternatives do not match in its place; the rest of the part is looked at as
    well, unless another negated group follows. -/
def marked (mark : Char) (body : Regex) (rest : Part) : Regex :=
  let inner := grouped body
  match mark with
  | '@' => inner .once ++ rest.regex
  | '?' => inner .optional ++ rest.regex
  | '*' => inner .star ++ rest.regex
  | '+' => inner .plus ++ rest.regex
  | _ =>
    let tail := if rest.holdsNegation then Regex.segmentEnd else rest.regex ++ Regex.segmentEnd
    grouped
      (.group .notAhead (inner .once ++ tail) .once (.single .notSeparator .lazyStar .done)) .once ++
        rest.regex

/-- A bare character. -/
def bare (c : Char) (rest : Regex) : Regex :=
  match c with
  | '?' => .single .notSeparator .once rest
  | '*' => .single .notSeparator .star rest
  | '/' => .separator rest
  | _ => .char c rest

/-- A bare character in front of parts: it separates them, or it joins the run of stars before it,
    or it stands for itself. -/
def place (delimiter : Char) (afterStar : Bool) (c : Char) : Part × List Part → Part × List Part
  | (p, others) =>
    if c = delimiter then ({}, p :: others)
    else if afterStar && c == '*' then (p.before [c] id, others)
    else (p.before [c] (bare c), others)

/-- The parts of a pattern between the bare delimiters of its own level: the first one, and the
    others. The flag says that the item before was a star; a run of stars is one
    wildcard, and only the first star of a run can mark a group. -/
def parts (delimiter : Char) : Bool → Glob → Part × List Part
  | _, .done => ({}, [])
  | afterStar, .char c (.group .parens body rest) =>
    if isGroupMark c && !(afterStar && c == '*') then
      let contents := Part.join (parts '|' false body)
      let (p, others) := parts delimiter false rest
      (⟨marked c contents p, c :: '(' :: body.text ++ ')' :: p.text⟩, others)
    else place delimiter afterStar c (parts delimiter false (.group .parens body rest))
  | afterStar, .char c rest => place delimiter afterStar c (parts delimiter (c == '*') rest)
  | _, .escaped c rest =>
    let (p, others) := parts delimiter false rest
    (p.before ['\\', c] (.char c), others)
  | _, .bracket body rest =>
    let (p, others) := parts delimiter false rest
    (p.before ('[' :: body ++ [']']) (.single (Bracket.item body) .once), others)
  | _, .group .parens body rest =>
    let contents := Part.join (parts '|' false body)
    let (p, others) := parts delimiter false rest
    (p.before ('(' :: body.text ++ [')']) (grouped contents .once ++ ·), others)
  | _, .group .braces body rest =>
    let inner := parts ',' false body
    let (p, others) := parts delimiter false rest
    let front : Regex :=
      if inner.2 ≠ [] then grouped (Part.join inner) .once
      else
        match Range.expand? body.text with
        | some (v :: vs) => grouped (alternatives (.chars v) (vs.map Regex.chars)) .once
        | _ => .char '{' (inner.1.regex ++ .char '}' .done)
    (p.before ('{' :: body.text ++ ['}']) (front ++ ·), others)

/-- Whether a pattern holds a wildcard, a class, a group in parentheses, or a brace group that
    stands for alternatives. -/
def isMagic : Glob → Bool
  | .done => false
  | .char c rest => c == '*' || c == '?' || rest.isMagic
  | .escaped _ rest => rest.isMagic
  | .bracket _ _ => true
  | .group .parens _ _ => true
  | .group .braces body rest =>
    body.hasBare ',' || (Range.expand? body.text).isSome || body.isMagic || rest.isMagic

/-! ## 3. Guards -/

/-- The guard in front of a segment that keeps its wildcards off a leading dot. A marked group
    lets a leading dot pass if one of its alternatives is spelled with one and matches. -/
def guard : Glob → Regex
  | .char c (.group .parens body _) =>
    if isGroupMark c then
      let (p, others) := parts '|' false body
      match (p :: others).filter (·.text.head? == some '.') with
      | d :: ds =>
        if c = '!' then .notDot .done
        else grouped (.notDot (.bar (.group .ahead (alternatives d.regex (ds.map Part.regex)) .once
          .done))) .once
      | [] => .notDot .done
    else .done
  | .char c _ => if c = '*' ∨ c = '?' then .notDot .done else .done
  | .bracket _ _ => .notDot .done
  | _ => .done

end Glob

end Wildcard
