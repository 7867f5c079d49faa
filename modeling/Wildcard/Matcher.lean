import Wildcard.CompiledGlob
import Wildcard.Error
import Wildcard.Path
import Wildcard.RecencyMemo
import Wildcard.Text.Blank

/-!
# Matching candidates

A matcher compiles patterns and decides which candidates they match. It keeps three things: a
cache of compiled patterns, which only calls without options read and only those write that leave
the negation unset as well; a small memo of which patterns hold no wildcard; and a record of what
it did.

Every operation takes a matcher and gives the matcher it leaves, with a result or the error it
failed with.

* `Matcher.makeRegex` compiles a pattern, or finds it in the cache.
* `CompiledGlob.accepts` is the predicate of a compiled pattern.
* `Matcher.isMatch` decides about one candidate, with shortcuts for patterns that are blank or hold
  no wildcard.
* `Matcher.matchOne` filters candidates by one pattern, `Matcher.matchAll` by several.
-/

namespace Wildcard

/-! ## 1. Compiling a pattern -/

namespace CompiledGlob

/-- Compiles a pattern. -/
def ofPattern (pattern : List Char) (options : Option MatchOptions) (negated : Option Bool)
    (serial : Nat) : Except MatchError CompiledGlob :=
  let s := Segmentation.ofText (MatchOptions.matchesDot options) negated pattern
  match MatchOptions.regexFlags options with
  | .error letter => .error (.unknownFlag letter)
  | .ok flags =>
    match CompiledRegex.compile s.source flags with
    | .error cause => .error (.invalidPattern pattern cause)
    | .ok compiled => .ok { pattern, regex := compiled.search, segmentation := some s, serial }

/-- Whether a candidate is matched as it stands, or with slashes for its backslashes. -/
def accepts (g : CompiledGlob) (candidate : List Char) : Bool :=
  g.isFoundIn candidate || (candidate.contains '\\' && g.isFoundIn (Path.unify candidate))

end CompiledGlob

/-- Whether a pattern holds no character that could be part of a wildcard. -/
def isLiteralPattern (pattern : List Char) : Bool :=
  !pattern.any fun c => c ∈ ['!', '*', '+', '?', '(', ')', '{', '}', '[', ']']

/-! ## 2. The matcher -/

/-- Something a matcher did. -/
inductive Event where
  | compiled (pattern source : List Char)
  | cleared (count : Nat)
  | registered (pattern : List Char)
  deriving DecidableEq, Repr

/-- How an event is reported. -/
def Event.message : Event → String
  | compiled pattern source =>
    "Compiled pattern " ++ String.ofList (Text.quoted pattern) ++ " -> " ++
      String.ofList (Text.quoted source)
  | cleared count => "Clearing " ++ toString count ++ " cached patterns"
  | registered pattern => "Registered cache entry for " ++ String.ofList (Text.quoted pattern)

/-- What a matcher keeps. -/
structure Matcher where
  cache : PatternCache := {}
  literals : RecencyMemo (List Char) Bool := { maxSize := RecencyMemo.defaultSize }
  /-- How many compiled patterns were made or registered. -/
  made : Nat := 0
  /-- What was done, the latest first. -/
  events : List Event := []

namespace Matcher

/-- The matcher with one more event on record. -/
def report (m : Matcher) (e : Event) : Matcher := { m with events := e :: m.events }

/-- The compiled pattern of a text: the cached one if the call may read the cache, or else a new
    one, which is kept if the call may write it. -/
def makeRegex (m : Matcher) (pattern : List Char) (options : Option MatchOptions)
    (negated : Option Bool) : Matcher × Except MatchError CompiledGlob :=
  match if options.isNone then m.cache.get? pattern else none with
  | some g => (m, .ok g)
  | none =>
    match CompiledGlob.ofPattern pattern options negated m.made with
    | .error e => (m, .error e)
    | .ok g =>
      let m := { m with made := m.made + 1 }.report (.compiled pattern g.source)
      if options.isNone && negated.isNone then
        ({ m with cache := m.cache.insert pattern g }, .ok g)
      else (m, .ok g)

/-- Registers a compiled pattern by hand. -/
def register (m : Matcher) (pattern : List Char) (g : CompiledGlob) : Matcher :=
  { m with
    cache := m.cache.insert pattern { g with serial := m.made }, made := m.made + 1 }.report
      (.registered pattern)

/-- A search as a compiled pattern for a text. -/
def globOfRegex (pattern : List Char) (regex : Search) : CompiledGlob := { pattern, regex }

/-- The regex that is found in every text but the empty one. -/
def anything : Search :=
  CompiledRegex.search
    { source := ['.'], flags := { dotAll := true }, regex := .single .dot .once .done }

/-- Registers the patterns of nothing but globstars as matching every candidate but the empty
    one. -/
def registerDefaults (m : Matcher) : Matcher :=
  let one := ['*', '*', '/', '*', '*']
  let two := ['*', '*']
  (m.register one (globOfRegex one anything)).register two (globOfRegex two anything)

/-- Empties the cache. -/
def clearCache (m : Matcher) : Matcher :=
  { m with cache := m.cache.clear }.report (.cleared m.cache.size)

/-! ## 3. One candidate -/

/-- Whether a candidate is the text of a pattern without wildcards, with a leading `./` of the
    pattern or without. -/
def matchesLiteral (candidate pattern : List Char) : Bool :=
  candidate == pattern || Path.unify candidate == Path.unify pattern ||
    (match currentDirectory? pattern with
    | some rest => candidate == rest
    | none => false)

/-- Whether a pattern holds no wildcard, looked up in the memo. -/
def isLiteral (m : Matcher) (pattern : List Char) : Matcher × Bool :=
  match m.literals.get (fun p => (.ok (isLiteralPattern p) : Except Empty Bool)) pattern with
  | (literals, .ok b) => ({ m with literals }, b)

/-- Decides about a candidate by compiling the pattern. -/
def accepts (m : Matcher) (candidate pattern : List Char) (options : Option MatchOptions)
    (negated : Option Bool) : Matcher × Except MatchError Bool :=
  match m.makeRegex pattern options negated with
  | (m, .ok g) => (m, .ok (g.accepts candidate))
  | (m, .error e) => (m, .error e)

/-- Whether a pattern matches a candidate. A blank pattern matches itself alone; a pattern without
    wildcards is compared with the candidate, unless case is ignored; any other is compiled. -/
def isMatch (m : Matcher) (candidate pattern : List Char) (options : Option MatchOptions)
    (negated : Option Bool) : Matcher × Except MatchError Bool :=
  if Text.isBlankText pattern then (m, .ok (candidate == pattern))
  else
    match m.isLiteral pattern with
    | (m, false) => m.accepts candidate pattern options negated
    | (m, true) =>
      match MatchOptions.regexFlags options with
      | .error letter => (m, .error (.unknownFlag letter))
      | .ok flags =>
        if flags.ignoreCase then m.accepts candidate pattern options negated
        else (m, .ok (matchesLiteral candidate pattern))

/-! ## 4. Many candidates -/

/-- What a pattern says once a leading exclamation mark is taken off, and whether there was one
    that negates it. -/
def negation (options : Option MatchOptions) (pattern : List Char) : Bool × List Char :=
  match MatchOptions.negates options, pattern with
  | true, '!' :: rest => (true, rest)
  | _, _ => (false, pattern)

/-- The candidates that a pattern matches, or does not match if it is negated, in their order. -/
def matchOne (m : Matcher) (candidates : List (List Char)) (pattern : List Char)
    (options : Option MatchOptions) : Matcher × Except MatchError (List (List Char)) :=
  let (negated, pattern) := negation options pattern
  match m.makeRegex pattern options (some negated) with
  | (m, .ok g) => (m, .ok (candidates.filter fun c => g.accepts c != negated))
  | (m, .error e) => (m, .error e)

/-- What several patterns select so far. -/
structure Selection where
  /-- What patterns that are not negated match; a candidate may stand in it more than once. -/
  kept : List (List Char) := []
  /-- What negated patterns match without their exclamation mark. -/
  omitted : List (List Char) := []
  /-- Whether there was a pattern that is not negated. -/
  positive : Bool := false

/-- What is selected in the end: one occurrence is taken out for each one omitted. If all patterns
    are negated, all candidates are there to begin with. -/
def Selection.result (s : Selection) (candidates : List (List Char)) : List (List Char) :=
  if s.omitted = [] then s.kept
  else s.omitted.foldl List.erase (if s.positive then s.kept else candidates)

/-- Goes through patterns in their order. -/
def select (candidates : List (List Char)) (options : Option MatchOptions) :
    Matcher → Selection → List (List Char) → Matcher × Except MatchError Selection
  | m, s, [] => (m, .ok s)
  | m, s, pattern :: rest =>
    let (negated, bare) := negation options pattern
    match m.matchOne candidates bare options with
    | (m, .error e) => (m, .error e)
    | (m, .ok found) =>
      let s :=
        if negated then { s with omitted := s.omitted ++ found }
        else { s with kept := s.kept ++ found, positive := true }
      select candidates options m s rest

/-- The candidates that a list of patterns selects. A single pattern filters them; of several, the
    matches of those that are not negated are listed one after the other, and less what the
    negated ones match. -/
def matchAll (m : Matcher) (candidates patterns : List (List Char))
    (options : Option MatchOptions) : Matcher × Except MatchError (List (List Char)) :=
  if candidates = [] ∨ patterns = [] then (m, .ok [])
  else
    match patterns with
    | [pattern] => m.matchOne candidates pattern options
    | _ =>
      match select candidates options m {} patterns with
      | (m, .ok s) => (m, .ok (s.result candidates))
      | (m, .error e) => (m, .error e)

end Matcher

end Wildcard
