import Wildcard.Matcher
import Wildcard.Value

/-!
# Matching values of unknown kind

The operations of a matcher where the caller may have handed over anything. A value of the wrong
kind is an error, found when the operation gets to it: the shapes of the sequences first, then one
pattern after the other, each of which is compiled before the candidates are looked at.
-/

namespace Wildcard

namespace Value

/-! ## 1. Values as patterns and candidates -/

/-- A value as a pattern. -/
def asPattern : Value → Except MatchError (List Char)
  | text cs => .ok cs
  | v => .error (.patternNotText v.kindName)

/-- A value as a candidate. -/
def asCandidate : Value → Except MatchError (List Char)
  | text cs => .ok cs
  | v => .error (.candidateNotText v.kindName)

/-- A value as a sequence: a list, or the keys of a mapping. -/
def asSequence (role : SequenceRole) : Value → Except MatchError (List Value)
  | text _ => .error (.singleText role)
  | list xs => .ok xs
  | mapping es => .ok (es.map (·.1))
  | v => .error (.notASequence v.qualifiedKindName)

/-- Values as candidates, or the error of the first one that is none. -/
def asCandidates : List Value → Except MatchError (List (List Char))
  | [] => .ok []
  | v :: rest =>
    match v.asCandidate, asCandidates rest with
    | .error e, _ => .error e
    | _, .error e => .error e
    | .ok c, .ok cs => .ok (c :: cs)

/-- Values as patterns, or the error of the first one that is none. -/
def asPatterns : List Value → Except MatchError (List (List Char))
  | [] => .ok []
  | v :: rest =>
    match v.asPattern, asPatterns rest with
    | .error e, _ => .error e
    | _, .error e => .error e
    | .ok c, .ok cs => .ok (c :: cs)

end Value

namespace Matcher

/-! ## 2. The operations -/

/-- Compiles a pattern. -/
def makeRegexOf (m : Matcher) (pattern : Value) (options : Option MatchOptions)
    (negated : Option Bool) : Matcher × Except MatchError CompiledGlob :=
  match pattern.asPattern with
  | .ok p => m.makeRegex p options negated
  | .error e => (m, .error e)

/-- Whether a compiled pattern accepts a candidate. -/
def acceptsValue (g : CompiledGlob) (candidate : Value) : Except MatchError Bool :=
  match candidate.asCandidate with
  | .ok c => .ok (g.accepts c)
  | .error e => .error e

/-- Decides about one candidate. -/
def isMatchOf (m : Matcher) (candidate pattern : Value) (options : Option MatchOptions)
    (negated : Option Bool) : Matcher × Except MatchError Bool :=
  match candidate.asCandidate with
  | .error e => (m, .error e)
  | .ok c =>
    match pattern.asPattern with
    | .error e => (m, .error e)
    | .ok p => m.isMatch c p options negated

/-- Filters a list of values by one pattern. -/
def filterOne (m : Matcher) (candidates : List Value) (pattern : Value)
    (options : Option MatchOptions) : Matcher × Except MatchError (List (List Char)) :=
  match pattern.asPattern with
  | .error e => (m, .error e)
  | .ok p =>
    match Value.asCandidates candidates with
    | .ok cs => m.matchOne cs p options
    | .error e =>
      match m.matchOne [] p options with
      | (m, .ok _) => (m, .error e)
      | (m, .error e) => (m, .error e)

/-- Filters by one pattern after the other until one fails; `cause` is the error if none does. -/
def failing (candidates : List Value) (options : Option MatchOptions) (cause : MatchError) :
    Matcher → List Value → Matcher × Except MatchError (List (List Char))
  | m, [] => (m, .error cause)
  | m, pattern :: rest =>
    let bare : Value :=
      match pattern with
      | .text p => .text (negation options p).2
      | v => v
    match m.filterOne candidates bare options with
    | (m, .ok _) => failing candidates options cause m rest
    | (m, .error e) => (m, .error e)

/-- Filters candidates by one pattern. -/
def matchOneOf (m : Matcher) (candidates pattern : Value) (options : Option MatchOptions) :
    Matcher × Except MatchError (List (List Char)) :=
  match candidates.asSequence .candidates with
  | .error e => (m, .error e)
  | .ok cs => m.filterOne cs pattern options

/-- Selects candidates by several patterns. -/
def matchAllOf (m : Matcher) (candidates patterns : Value) (options : Option MatchOptions) :
    Matcher × Except MatchError (List (List Char)) :=
  match candidates.asSequence .candidates with
  | .error e => (m, .error e)
  | .ok cs =>
    match patterns.asSequence .patterns with
    | .error e => (m, .error e)
    | .ok ps =>
      if cs.isEmpty || ps.isEmpty then (m, .ok [])
      else
        match ps with
        | [p] => m.filterOne cs p options
        | _ =>
          match Value.asCandidates cs, Value.asPatterns ps with
          | .ok cs, .ok ps => m.matchAll cs ps options
          | .error e, _ => failing cs options e m ps
          | _, .error e => failing cs options e m ps

end Matcher

end Wildcard
