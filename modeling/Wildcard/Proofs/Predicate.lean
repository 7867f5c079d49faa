import Wildcard.Proofs.Session

/-!
# The predicate of a pattern

What a matcher says of candidates comes from the regex that it has for a pattern: the one of the
cache if the call may read it, or else the one that the pattern is compiled to. Whether a call
negates, and how many patterns were made before, does not show in it.

* `regex_makeRegex`: the regex of the compiled pattern that a matcher gives.
* `accepts_snd`, `answer_isMatch`, `matchOne_snd`: the answers for one candidate and for several in
  terms of it.
* `Faithful.regexFor`: for a faithful matcher it is what the pattern compiles to.
-/

namespace Wildcard

/-! ## 1. Compiled patterns up to their regex -/

/-- Whether a candidate is matched as it stands, or with slashes for its backslashes. -/
def Search.accepts (r : Search) (candidate : List Char) : Bool :=
  r.isFoundIn candidate || (candidate.contains '\\' && r.isFoundIn (Path.unify candidate))

namespace CompiledGlob

/-- The predicate of a compiled pattern looks at its regex alone. -/
theorem accepts_regex (g : CompiledGlob) : g.accepts = g.regex.accepts := rfl

/-- What a pattern is compiled to, less the segments and the number of the compilation. -/
def regexOf (pattern : List Char) (options : Option MatchOptions) :
    Except MatchError Search :=
  (ofPattern pattern options none 0).map (·.regex)

/-- Being negated and the number of the compilation leave the regex as it is. -/
theorem regex_ofPattern (pattern : List Char) (options : Option MatchOptions)
    (negated : Option Bool) (serial : Nat) :
    (ofPattern pattern options negated serial).map (·.regex) = regexOf pattern options := by
  unfold regexOf ofPattern
  cases MatchOptions.regexFlags options with
  | error letter => rfl
  | ok flags =>
    have hsource : (Segmentation.ofText (MatchOptions.matchesDot options) negated pattern).source =
        (Segmentation.ofText (MatchOptions.matchesDot options) none pattern).source := rfl
    simp only [hsource]
    cases CompiledRegex.compile
      (Segmentation.ofText (MatchOptions.matchesDot options) none pattern).source flags <;> rfl

end CompiledGlob

namespace Matcher

/-! ## 2. The regex that a matcher has for a pattern -/

/-- The regex of the cache if the call may read it, or else what the pattern compiles to. -/
def regexFor (m : Matcher) (pattern : List Char) (options : Option MatchOptions) :
    Except MatchError Search :=
  match if options.isNone then m.cache.get? pattern else none with
  | some g => .ok g.regex
  | none => CompiledGlob.regexOf pattern options

section Regex

variable {m m' : Matcher} {options : Option MatchOptions}

theorem regexFor_congr (h : m'.cache = m.cache) : m'.regexFor = m.regexFor := by
  unfold regexFor
  rw [h]

/-- A faithful matcher has what the pattern compiles to. -/
theorem Faithful.regexFor (h : Faithful false m) (pattern : List Char)
    (options : Option MatchOptions) :
    m.regexFor pattern options = CompiledGlob.regexOf pattern options := by
  unfold Matcher.regexFor
  cases hcached : if options.isNone then m.cache.get? pattern else none with
  | none => rfl
  | some g =>
    split at hcached
    · rename_i hoptions
      obtain ⟨serial, hg⟩ := h.cache rfl pattern g hcached
      rw [Option.isNone_iff_eq_none.mp hoptions,
        ← CompiledGlob.regex_ofPattern pattern none none serial, hg]
      rfl
    · cases hcached

/-- **The compiled pattern** that a matcher gives has this regex, whether the call negates or not,
    and the error is the same if there is one. -/
theorem regex_makeRegex (m : Matcher) (pattern : List Char) (options : Option MatchOptions)
    (negated : Option Bool) :
    (m.makeRegex pattern options negated).2.map (·.regex) = m.regexFor pattern options := by
  unfold makeRegex Matcher.regexFor
  cases if options.isNone then m.cache.get? pattern else none with
  | some g => rfl
  | none =>
    rw [← CompiledGlob.regex_ofPattern pattern options negated m.made]
    cases CompiledGlob.ofPattern pattern options negated m.made with
    | error e => rfl
    | ok g =>
      simp only
      split <;> rfl

theorem regexFor_of_makeRegex {pattern : List Char} {negated : Option Bool} {g : CompiledGlob}
    (h : (m.makeRegex pattern options negated).2 = .ok g) :
    m.regexFor pattern options = .ok g.regex := by
  rw [← regex_makeRegex m pattern options negated, h]
  rfl

/-- A call that has options or says whether it negates does not write the cache. -/
theorem cache_makeRegex_of_not_writes {negated : Option Bool}
    (h : ¬ (options.isNone && negated.isNone) = true) (pattern : List Char) :
    (m.makeRegex pattern options negated).1.cache = m.cache := by
  unfold makeRegex
  split
  · rfl
  · split
    · rfl
    · rw [if_neg h]
      rfl

theorem cache_makeRegex (m : Matcher) (pattern : List Char) (options : Option MatchOptions)
    (negated : Bool) : (m.makeRegex pattern options (some negated)).1.cache = m.cache :=
  cache_makeRegex_of_not_writes (by simp) pattern

end Regex

/-! ## 3. What is answered -/

variable (m : Matcher) (options : Option MatchOptions)

theorem accepts_snd (candidate pattern : List Char) (negated : Option Bool) :
    (m.accepts candidate pattern options negated).2 =
      (m.regexFor pattern options).map (·.accepts candidate) := by
  unfold Matcher.accepts
  rw [← regex_makeRegex m pattern options negated]
  obtain ⟨m', r⟩ := m.makeRegex pattern options negated
  cases r <;> rfl

/-- **Deciding about a candidate** compares texts if the pattern is blank, or holds no wildcard and
    case counts, and asks the regex otherwise. -/
theorem Faithful.answer_isMatch {m : Matcher} {options : Option MatchOptions} {held : Bool}
    (h : Faithful held m) {flags : Regex.Flags}
    (hflags : MatchOptions.regexFlags options = .ok flags) (candidate pattern : List Char)
    (negated : Option Bool) :
    (m.isMatch candidate pattern options negated).2 =
      if Text.isBlankText pattern then .ok (candidate == pattern)
      else if isLiteralPattern pattern && !flags.ignoreCase then
        .ok (matchesLiteral candidate pattern)
      else (m.regexFor pattern options).map (·.accepts candidate) := by
  obtain ⟨hliteral, hcache, -, -⟩ := h.isLiteral pattern
  have hdecides := decides_isMatch m candidate pattern options negated
  generalize m.isMatch candidate pattern options negated = result at hdecides ⊢
  cases hdecides with
  | blank hblank => rw [if_pos hblank]
  | unknownFlag _ _ herror =>
    rw [hflags] at herror
    cases herror
  | compared hblank hfound hflags' hcase =>
    rw [hfound] at hliteral
    cases Except.ok.inj (hflags.symm.trans hflags')
    rw [if_neg (Bool.eq_false_iff.mp hblank), ← hliteral, hcase]
    rfl
  | compiled hblank hfound hcase =>
    rw [hfound] at hliteral hcache
    have hcompiles : (isLiteralPattern pattern && !flags.ignoreCase) = false := by
      rw [← hliteral, Bool.and_eq_false_imp]
      intro hyes
      obtain ⟨flags', hflags', hignore⟩ := hcase hyes
      cases Except.ok.inj (hflags.symm.trans hflags')
      rw [hignore]
      rfl
    rw [if_neg (Bool.eq_false_iff.mp hblank), if_neg (Bool.eq_false_iff.mp hcompiles), accepts_snd,
      regexFor_congr hcache]

/-- **Filtering by one pattern** keeps what its predicate accepts, or does not accept if the
    pattern is negated. -/
theorem matchOne_snd (candidates : List (List Char)) (pattern : List Char) :
    (m.matchOne candidates pattern options).2 =
      (m.regexFor (negation options pattern).2 options).map fun r =>
        candidates.filter fun c => r.accepts c != (negation options pattern).1 := by
  unfold matchOne
  generalize negation options pattern = signed
  obtain ⟨negated, bare⟩ := signed
  simp only
  rw [← regex_makeRegex m bare options (some negated)]
  obtain ⟨m', r⟩ := m.makeRegex bare options (some negated)
  cases r <;> rfl

/-- Filtering does not write the cache. -/
theorem keptFiltering_cache (cache : PatternCache) : KeptFiltering (·.cache = cache) where
  makeRegex m pattern options negated h := (cache_makeRegex m pattern options negated).trans h

theorem cache_matchOne (candidates : List (List Char)) (pattern : List Char) :
    (m.matchOne candidates pattern options).1.cache = m.cache :=
  (keptFiltering_cache m.cache).matchOne rfl candidates pattern options

end Matcher

end Wildcard
