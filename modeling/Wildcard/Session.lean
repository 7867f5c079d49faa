import Wildcard.PatternSet

/-!
# Sessions with a matcher

A session is a run of actions on one matcher. An action that fails leaves an answer like any
other, and the session goes on with the matcher as the action left it.
-/

namespace Wildcard

/-! ## 1. Actions and answers -/

/-- Why an action fails. -/
inductive Failure where
  | matching (e : MatchError)
  | config (e : PatternSet.Located)
  deriving Repr

/-- What is registered for a pattern. -/
inductive Registrable where
  /-- A compiled regex, or anything that answers like one. -/
  | regex (r : Search)
  /-- What another matcher compiles a pattern to. -/
  | globOf (pattern : Value) (options : Option MatchOptions)
  /-- Something that is no regex. -/
  | other (v : Value)

/-- An action on a matcher. -/
inductive Action where
  | makeRegex (pattern : Value) (options : Option MatchOptions) (negated : Option Bool)
  /-- Makes the predicate of a pattern and applies it to candidates. -/
  | predicate (pattern : Value) (options : Option MatchOptions) (negated : Option Bool)
      (candidates : List Value)
  | isMatch (candidates : List Value) (pattern : Value) (options : Option MatchOptions)
      (negated : Option Bool)
  | isMatchPatterns (candidate : Value) (patterns : List Value) (options : Option MatchOptions)
      (negated : Option Bool)
  | matchOne (candidates pattern : Value) (options : Option MatchOptions)
  | matchAll (candidates patterns : Value) (options : Option MatchOptions)
  | applySet (data candidates : Value)
  | clearCache
  | registerDefaults
  | register (pattern : Value) (entry : Registrable)
  | cached (pattern : Value)
  | isCached (pattern : Value)
  /-- The patterns in the memo of those without wildcards. -/
  | literalPatterns

/-- The answer to an action. -/
inductive Answer where
  | nothing
  | truth (b : Bool)
  | glob (g : CompiledGlob)
  | texts (ts : List (List Char))
  /-- One answer for each candidate or pattern. -/
  | each (results : List (Except MatchError Bool))
  | failed (f : Failure)

namespace Answer

/-- The answer of an operation that may fail. -/
def ofResult {α : Type} (f : α → Answer) : Except MatchError α → Answer
  | .ok a => f a
  | .error e => failed (.matching e)

end Answer

/-! ## 2. Performing actions -/

namespace Matcher

/-- Runs an operation for each of a list of values, one after the other. -/
def forEach {β : Type} (op : Matcher → Value → Matcher × β) :
    Matcher → List Value → Matcher × List β
  | m, [] => (m, [])
  | m, v :: rest =>
    let (m, b) := op m v
    let (m, bs) := forEach op m rest
    (m, b :: bs)

/-- Registers an entry for a pattern. -/
def registerEntry (m : Matcher) (pattern : Value) : Registrable → Matcher × Answer
  | .regex r =>
    match pattern.asPattern with
    | .ok p => (m.register p (globOfRegex p r), .truth true)
    | .error e => (m, .failed (.matching e))
  | .globOf source options =>
    match ({} : Matcher).makeRegexOf source options none with
    | (other, .error e) =>
      ({ m with events := other.events ++ m.events }, .failed (.matching e))
    | (other, .ok g) =>
      let m := { m with events := other.events ++ m.events }
      match pattern.asPattern with
      | .ok p => (m.register p g, .truth true)
      | .error e => (m, .failed (.matching e))
  | .other v =>
    match pattern.asPattern with
    | .ok _ => (m, .failed (.matching (.notARegex v.kindName)))
    | .error e => (m, .failed (.matching e))

/-- The entry of a value in the cache; only texts have one. -/
def cachedFor (m : Matcher) : Value → Option CompiledGlob
  | .text p => m.cache.get? p
  | _ => none

/-- Performs an action. -/
def perform (m : Matcher) : Action → Matcher × Answer
  | .makeRegex pattern options negated =>
    let (m, r) := m.makeRegexOf pattern options negated
    (m, .ofResult .glob r)
  | .predicate pattern options negated candidates =>
    match m.makeRegexOf pattern options negated with
    | (m, .ok g) => (m, .each (candidates.map (acceptsValue g)))
    | (m, .error e) => (m, .failed (.matching e))
  | .isMatch candidates pattern options negated =>
    let (m, rs) := forEach (fun m c => m.isMatchOf c pattern options negated) m candidates
    (m, .each rs)
  | .isMatchPatterns candidate patterns options negated =>
    let (m, rs) := forEach (fun m p => m.isMatchOf candidate p options negated) m patterns
    (m, .each rs)
  | .matchOne candidates pattern options =>
    let (m, r) := m.matchOneOf candidates pattern options
    (m, .ofResult .texts r)
  | .matchAll candidates patterns options =>
    let (m, r) := m.matchAllOf candidates patterns options
    (m, .ofResult .texts r)
  | .applySet data candidates =>
    match PatternSet.ofValue data with
    | .error e => (m, .failed (.config e))
    | .ok s =>
      let (m, r) := s.apply m candidates
      (m, .ofResult .texts r)
  | .clearCache => (m.clearCache, .nothing)
  | .registerDefaults => (m.registerDefaults, .truth true)
  | .register pattern entry => m.registerEntry pattern entry
  | .cached pattern =>
    (m, match m.cachedFor pattern with
      | some g => .glob g
      | none => .nothing)
  | .isCached pattern => (m, .truth (m.cachedFor pattern).isSome)
  | .literalPatterns => (m, .texts m.literals.keys)

/-- The matcher that a run of actions leaves. -/
def performAll (m : Matcher) (actions : List Action) : Matcher :=
  actions.foldl (fun m a => (m.perform a).1) m

end Matcher

end Wildcard
