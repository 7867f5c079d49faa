import Wildcard.Regex.Flags

/-!
# Options of a match

What a caller may ask for beyond the pattern. Giving no options at all is not the same as giving
the default ones: only a call without options may use the cache of a matcher, so operations take
an `Option MatchOptions`.
-/

namespace Wildcard

/-- Options of a match. -/
structure MatchOptions where
  /-- Case is ignored, unless `flags` is given. -/
  nocase : Bool := false
  /-- The letters of the regex flags. -/
  flags : Option (List Char) := none
  /-- A leading exclamation mark is part of the pattern. -/
  nonegate : Bool := false
  /-- Wildcards match a leading dot. -/
  dot : Bool := false
  deriving DecidableEq, Repr

namespace MatchOptions

/-- The regex flags that options ask for, or the first letter that names none. -/
def regexFlags : Option MatchOptions → Except Char Regex.Flags
  | none => .ok {}
  | some o =>
    match o.flags with
    | some letters => Regex.Flags.ofLetters letters
    | none => .ok { ignoreCase := o.nocase }

/-- Whether wildcards match a leading dot. -/
def matchesDot (o : Option MatchOptions) : Bool := o.any (·.dot)

/-- Whether a leading exclamation mark negates a pattern. -/
def negates (o : Option MatchOptions) : Bool := !o.any (·.nonegate)

end MatchOptions

end Wildcard
