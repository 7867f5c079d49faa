import Wildcard.Session
import Wildcard.Proofs.RecencyMemo

/-!
# What runs of a matcher keep

However many operations a matcher has, each comes down to looking the memo up, compiling a pattern
and putting events on record, unless an entry is registered or the cache is cleared. A property
that these few keep is kept by every other action (`Kept.perform`), and so by runs.

* `Decides`: how a matcher decides about a candidate, one case for each way.
* `Faithful`: the memo says of each text what is true of it and, as long as nothing registered by
  hand is held, every entry of the cache is what its text compiles to without options.
* `faithful_performAll`: every run from the empty matcher leaves a faithful one.
-/

namespace Wildcard

namespace Matcher

/-! ## 1. Deciding about a candidate -/

/-- How a matcher decides about a candidate: by comparing texts, or by compiling the pattern once
    the memo was looked up. -/
inductive Decides (m : Matcher) (candidate pattern : List Char) (options : Option MatchOptions)
    (negated : Option Bool) : Matcher × Except MatchError Bool → Prop
  | blank : Text.isBlankText pattern = true →
      Decides m candidate pattern options negated (m, .ok (candidate == pattern))
  | unknownFlag {m' : Matcher} {letter : Char} : Text.isBlankText pattern = false →
      m.isLiteral pattern = (m', true) → MatchOptions.regexFlags options = .error letter →
        Decides m candidate pattern options negated (m', .error (.unknownFlag letter))
  | compared {m' : Matcher} {flags : Regex.Flags} : Text.isBlankText pattern = false →
      m.isLiteral pattern = (m', true) → MatchOptions.regexFlags options = .ok flags →
        flags.ignoreCase = false →
          Decides m candidate pattern options negated (m', .ok (matchesLiteral candidate pattern))
  | compiled {m' : Matcher} {literal : Bool} : Text.isBlankText pattern = false →
      m.isLiteral pattern = (m', literal) →
        (literal = true →
          ∃ flags, MatchOptions.regexFlags options = .ok flags ∧ flags.ignoreCase = true) →
          Decides m candidate pattern options negated (m'.accepts candidate pattern options negated)

/-- These are all the ways there are. -/
theorem decides_isMatch (m : Matcher) (candidate pattern : List Char)
    (options : Option MatchOptions) (negated : Option Bool) :
    Decides m candidate pattern options negated (m.isMatch candidate pattern options negated) := by
  unfold isMatch
  cases hblank : Text.isBlankText pattern with
  | true => exact .blank hblank
  | false =>
    rw [if_neg Bool.false_ne_true]
    cases hfound : m.isLiteral pattern with
    | mk m' literal =>
      cases literal with
      | false => exact .compiled hblank hfound fun hliteral => nomatch hliteral
      | true =>
        cases hflags : MatchOptions.regexFlags options with
        | error letter => exact .unknownFlag hblank hfound hflags
        | ok flags =>
          cases hcase : flags.ignoreCase with
          | true => simpa only [hcase] using .compiled hblank hfound fun _ => ⟨flags, hflags, hcase⟩
          | false => simpa only [hcase] using .compared hblank hfound hflags hcase

/-! ## 2. What every operation keeps -/

/-- A property of matchers that filtering keeps. Whether the pattern is negated is found out first,
    so it is never left open when the pattern is compiled. -/
structure KeptFiltering (P : Matcher → Prop) : Prop where
  makeRegex : ∀ m pattern options (negated : Bool), P m →
    P (m.makeRegex pattern options (some negated)).1

section Filtering

variable {P : Matcher → Prop} (h : KeptFiltering P) {m : Matcher}

include h

theorem KeptFiltering.matchOne (hm : P m) (candidates : List (List Char)) (pattern : List Char)
    (options : Option MatchOptions) : P (m.matchOne candidates pattern options).1 := by
  unfold Matcher.matchOne
  generalize negation options pattern = signed
  obtain ⟨negated, bare⟩ := signed
  have hregex := h.makeRegex m bare options negated hm
  simp only
  generalize m.makeRegex bare options (some negated) = made at hregex
  obtain ⟨m', result⟩ := made
  cases result <;> exact hregex

theorem KeptFiltering.select (hm : P m) (candidates : List (List Char))
    (options : Option MatchOptions) (s : Selection) (patterns : List (List Char)) :
    P (Matcher.select candidates options m s patterns).1 := by
  induction patterns generalizing m s with
  | nil => exact hm
  | cons pattern rest ih =>
    have hone := h.matchOne hm candidates (negation options pattern).2 options
    rw [Matcher.select]
    simp only
    generalize m.matchOne candidates (negation options pattern).2 options = found at hone
    obtain ⟨m', result⟩ := found
    cases result with
    | error e => exact hone
    | ok matching => exact ih hone _

theorem KeptFiltering.matchAll (hm : P m) (candidates patterns : List (List Char))
    (options : Option MatchOptions) : P (m.matchAll candidates patterns options).1 := by
  unfold Matcher.matchAll
  split
  · exact hm
  · split
    · exact h.matchOne hm candidates _ options
    · have hselect := h.select hm candidates options {} patterns
      generalize Matcher.select candidates options m {} patterns = selected at hselect
      obtain ⟨m', result⟩ := selected
      cases result <;> exact hselect

theorem KeptFiltering.filterOne (hm : P m) (candidates : List Value) (pattern : Value)
    (options : Option MatchOptions) : P (m.filterOne candidates pattern options).1 := by
  unfold Matcher.filterOne
  split
  · exact hm
  · rename_i p _
    split
    · exact h.matchOne hm _ p options
    · have hone := h.matchOne hm [] p options
      generalize m.matchOne [] p options = found at hone
      obtain ⟨m', result⟩ := found
      cases result <;> exact hone

theorem KeptFiltering.failing (hm : P m) (candidates : List Value) (options : Option MatchOptions)
    (cause : MatchError) (patterns : List Value) :
    P (Matcher.failing candidates options cause m patterns).1 := by
  induction patterns generalizing m with
  | nil => exact hm
  | cons pattern rest ih =>
    unfold Matcher.failing
    simp only
    generalize hfound : m.filterOne candidates _ options = found
    have hone : P found.1 := by
      rw [← hfound]
      exact h.filterOne hm candidates _ options
    obtain ⟨m', result⟩ := found
    cases result with
    | error e => exact hone
    | ok matching => exact ih hone

theorem KeptFiltering.matchOneOf (hm : P m) (candidates pattern : Value)
    (options : Option MatchOptions) : P (m.matchOneOf candidates pattern options).1 := by
  unfold Matcher.matchOneOf
  split
  · exact hm
  · exact h.filterOne hm _ pattern options

theorem KeptFiltering.matchAllOf (hm : P m) (candidates patterns : Value)
    (options : Option MatchOptions) : P (m.matchAllOf candidates patterns options).1 := by
  unfold Matcher.matchAllOf
  split
  · exact hm
  · split
    · exact hm
    · split
      · exact hm
      · split
        · exact h.filterOne hm _ _ options
        · split
          · exact h.matchAll hm _ _ options
          · exact h.failing hm _ options _ _
          · exact h.failing hm _ options _ _

end Filtering

/-- A property of matchers that compiling a pattern, looking the memo up and reporting keep. -/
structure Kept (P : Matcher → Prop) : Prop where
  makeRegex : ∀ m pattern options negated, P m → P (m.makeRegex pattern options negated).1
  isLiteral : ∀ m pattern, P m → P (m.isLiteral pattern).1
  report : ∀ m events, P m → P { m with events := events ++ m.events }

theorem Kept.filtering {P : Matcher → Prop} (h : Kept P) : KeptFiltering P where
  makeRegex m pattern options negated hm := h.makeRegex m pattern options (some negated) hm

section Kept

variable {P : Matcher → Prop} (h : Kept P) {m : Matcher}

include h

theorem Kept.accepts (hm : P m) (candidate pattern : List Char) (options : Option MatchOptions)
    (negated : Option Bool) : P (m.accepts candidate pattern options negated).1 := by
  have hregex := h.makeRegex m pattern options negated hm
  unfold Matcher.accepts
  generalize m.makeRegex pattern options negated = made at hregex
  obtain ⟨m', result⟩ := made
  cases result <;> exact hregex

theorem Kept.isMatch (hm : P m) (candidate pattern : List Char) (options : Option MatchOptions)
    (negated : Option Bool) : P (m.isMatch candidate pattern options negated).1 := by
  have hlookup := h.isLiteral m pattern hm
  have hdecides := decides_isMatch m candidate pattern options negated
  generalize m.isMatch candidate pattern options negated = result at hdecides ⊢
  cases hdecides with
  | blank _ => exact hm
  | unknownFlag _ hfound _ =>
    rw [hfound] at hlookup
    exact hlookup
  | compared _ hfound _ _ =>
    rw [hfound] at hlookup
    exact hlookup
  | compiled _ hfound _ =>
    rw [hfound] at hlookup
    exact h.accepts hlookup candidate pattern options negated

theorem Kept.makeRegexOf (hm : P m) (pattern : Value) (options : Option MatchOptions)
    (negated : Option Bool) : P (m.makeRegexOf pattern options negated).1 := by
  unfold Matcher.makeRegexOf
  split
  · exact h.makeRegex m _ options negated hm
  · exact hm

theorem Kept.isMatchOf (hm : P m) (candidate pattern : Value) (options : Option MatchOptions)
    (negated : Option Bool) : P (m.isMatchOf candidate pattern options negated).1 := by
  unfold Matcher.isMatchOf
  split
  · exact hm
  · split
    · exact hm
    · exact h.isMatch hm _ _ options negated

end Kept

theorem forEach_kept {P : Matcher → Prop} {β : Type} {op : Matcher → Value → Matcher × β}
    (hop : ∀ m v, P m → P (op m v).1) {m : Matcher} (hm : P m) (values : List Value) :
    P (Matcher.forEach op m values).1 := by
  induction values generalizing m with
  | nil => exact hm
  | cons v rest ih => exact ih (hop m v hm)

/-! ## 3. Actions -/

/-- Whether an action registers an entry by hand. -/
def registers (m : Matcher) : Action → Bool
  | .registerDefaults => true
  | .register pattern entry =>
    match (m.registerEntry pattern entry).2 with
    | .truth _ => true
    | _ => false
  | _ => false

/-- Registering that fails leaves at most events. -/
theorem registerEntry_of_not_registers {m : Matcher} {pattern : Value} {entry : Registrable}
    (h : m.registers (.register pattern entry) = false) :
    ∃ events, (m.registerEntry pattern entry).1 = { m with events := events ++ m.events } := by
  unfold registers registerEntry at *
  cases entry with
  | regex r =>
    cases hp : pattern.asPattern with
    | ok p => simp [hp] at h
    | error e => exact ⟨[], by simp⟩
  | globOf source options =>
    simp only at h ⊢
    generalize ({} : Matcher).makeRegexOf source options none = made at h
    obtain ⟨other, result⟩ := made
    cases result with
    | error e => exact ⟨other.events, rfl⟩
    | ok g =>
      cases hp : pattern.asPattern with
      | ok p => simp [hp] at h
      | error e => exact ⟨other.events, by simp⟩
  | other v =>
    refine ⟨[], ?_⟩
    cases hp : pattern.asPattern <;> simp

/-- Registering does not look at the memo. -/
theorem literals_of_registers {m : Matcher} {a : Action} (h : m.registers a = true) :
    (m.perform a).1.literals = m.literals := by
  cases a with
  | registerDefaults => rfl
  | register pattern entry =>
    rw [perform]
    unfold registerEntry
    split
    · split <;> rfl
    · split
      · rfl
      · simp only
        split <;> rfl
    · split <;> rfl
  | _ => cases h

/-- **An action that neither registers nor clears** keeps what every operation keeps. -/
theorem Kept.perform {P : Matcher → Prop} (h : Kept P) {m : Matcher} (hm : P m) {a : Action}
    (hclear : a ≠ .clearCache) (hregisters : m.registers a = false) : P (m.perform a).1 := by
  cases a with
  | makeRegex pattern options negated => exact h.makeRegexOf hm pattern options negated
  | predicate pattern options negated candidates =>
    have hregex := h.makeRegexOf hm pattern options negated
    rw [Matcher.perform]
    generalize m.makeRegexOf pattern options negated = made at hregex
    obtain ⟨m', result⟩ := made
    cases result <;> exact hregex
  | isMatch candidates pattern options negated =>
    exact @forEach_kept P _ (fun m c => m.isMatchOf c pattern options negated)
      (fun _ c hm => h.isMatchOf hm c pattern options negated) m hm candidates
  | isMatchPatterns candidate patterns options negated =>
    exact @forEach_kept P _ (fun m p => m.isMatchOf candidate p options negated)
      (fun _ p hm => h.isMatchOf hm candidate p options negated) m hm patterns
  | matchOne candidates pattern options =>
    exact h.filtering.matchOneOf hm candidates pattern options
  | matchAll candidates patterns options =>
    exact h.filtering.matchAllOf hm candidates patterns options
  | applySet data candidates =>
    rw [Matcher.perform]
    split
    · exact hm
    · exact h.filtering.matchAllOf hm candidates _ _
  | clearCache => exact absurd rfl hclear
  | registerDefaults => cases hregisters
  | register pattern entry =>
    obtain ⟨events, hevents⟩ := registerEntry_of_not_registers hregisters
    rw [Matcher.perform, hevents]
    exact h.report m events hm
  | cached pattern => exact hm
  | isCached pattern => exact hm
  | literalPatterns => exact hm

/-! ## 4. Runs -/

/-- Whether an entry is held that was registered by hand, once an action is performed. -/
def holdsAfter (m : Matcher) (held : Bool) (a : Action) : Bool :=
  match a with
  | .clearCache => false
  | a => held || m.registers a

/-- Whether an entry is held that was registered by hand, at the end of a run. -/
def holdsRegistered (m : Matcher) (held : Bool) : List Action → Bool
  | [] => held
  | a :: rest => holdsRegistered (m.perform a).1 (m.holdsAfter held a) rest

/-- The memo is sound, and unless an entry registered by hand is held, each entry of the cache is
    what its text compiles to without options. -/
structure Faithful (held : Bool) (m : Matcher) : Prop where
  memo : m.literals.Sound fun p => (.ok (isLiteralPattern p) : Except Empty Bool)
  cache : held = false → ∀ key g, m.cache.get? key = some g →
    ∃ serial, CompiledGlob.ofPattern key none none serial = .ok g

/-- The memo of a faithful matcher says what is true, and only the memo changes. -/
theorem Faithful.isLiteral {m : Matcher} {held : Bool} (h : Faithful held m)
    (pattern : List Char) :
    (m.isLiteral pattern).2 = isLiteralPattern pattern ∧
      (m.isLiteral pattern).1.cache = m.cache ∧ (m.isLiteral pattern).1.made = m.made ∧
        Faithful held (m.isLiteral pattern).1 := by
  have hmemo := h.memo.get pattern
  have hresult := h.memo.get_eq (fun a b hab => by rw [eq_of_beq hab]) pattern
  unfold Matcher.isLiteral
  generalize m.literals.get (fun p => (.ok (isLiteralPattern p) : Except Empty Bool)) pattern =
    found at hmemo hresult
  obtain ⟨literals, result⟩ := found
  cases hresult
  exact ⟨rfl, rfl, rfl, hmemo, h.cache⟩

theorem faithful_empty : Faithful false {} where
  memo := by
    intro e he
    cases he
  cache := by
    intro _ key g h
    cases h

/-- What is compiled, or found in the cache, is what the pattern compiles to. -/
theorem Faithful.ofPattern {m : Matcher} (h : Faithful false m) {pattern : List Char}
    {options : Option MatchOptions} {negated : Option Bool} {g : CompiledGlob}
    (hg : (m.makeRegex pattern options negated).2 = .ok g) :
    ∃ negated' serial, CompiledGlob.ofPattern pattern options negated' serial = .ok g := by
  unfold makeRegex at hg
  split at hg
  · rename_i g' hcached
    cases hg
    by_cases hoptions : options.isNone = true
    · rw [if_pos hoptions] at hcached
      obtain ⟨serial, hserial⟩ := h.cache rfl pattern g hcached
      rw [Option.isNone_iff_eq_none] at hoptions
      rw [hoptions]
      exact ⟨none, serial, hserial⟩
    · rw [if_neg hoptions] at hcached
      cases hcached
  · split at hg
    · cases hg
    · rename_i g' hcompile
      refine ⟨negated, m.made, ?_⟩
      split at hg
      · cases hg
        exact hcompile
      · cases hg
        exact hcompile

theorem kept_faithful (held : Bool) : Kept (Faithful held) where
  makeRegex := by
    intro m pattern options negated h
    unfold Matcher.makeRegex
    split
    · exact h
    · split
      · exact h
      · rename_i g hcompile
        split
        · rename_i hwrites
          obtain ⟨hoptions, hnegated⟩ := Bool.and_eq_true_iff.mp hwrites
          rw [Option.isNone_iff_eq_none] at hoptions hnegated
          rw [hoptions, hnegated] at hcompile
          refine ⟨h.memo, fun hheld key g' hg' => ?_⟩
          rw [PatternCache.get?_insert] at hg'
          by_cases hkey : key = pattern
          · rw [if_pos hkey] at hg'
            cases hg'
            rw [hkey]
            exact ⟨m.made, hcompile⟩
          · rw [if_neg hkey] at hg'
            exact h.cache hheld key g' hg'
        · exact ⟨h.memo, h.cache⟩
  isLiteral := by
    intro m pattern h
    obtain ⟨-, -, -, hleft⟩ := h.isLiteral pattern
    exact hleft
  report := by
    intro m events h
    exact ⟨h.memo, h.cache⟩

/-- **One action** leaves a faithful matcher faithful. -/
theorem Faithful.perform {m : Matcher} {held : Bool} (h : Faithful held m) (a : Action) :
    Faithful (m.holdsAfter held a) (m.perform a).1 := by
  by_cases hclear : a = .clearCache
  · subst hclear
    refine ⟨h.memo, fun _ key g hg => ?_⟩
    rw [Matcher.perform, clearCache, Matcher.report, PatternCache.get?_clear] at hg
    cases hg
  · have hafter : m.holdsAfter held a = (held || m.registers a) := by
      cases a <;> first | rfl | exact absurd rfl hclear
    rw [hafter]
    cases hregisters : m.registers a with
    | false =>
      rw [Bool.or_false]
      exact (kept_faithful held).perform h hclear hregisters
    | true =>
      rw [Bool.or_true]
      refine ⟨?_, fun hheld => absurd hheld (by simp)⟩
      have hmemo : (m.perform a).1.literals = m.literals := literals_of_registers hregisters
      rw [hmemo]
      exact h.memo

/-- **A run** leaves a faithful matcher faithful. -/
theorem Faithful.performAll {m : Matcher} {held : Bool} (h : Faithful held m)
    (actions : List Action) : Faithful (m.holdsRegistered held actions) (m.performAll actions) := by
  induction actions generalizing m held with
  | nil => exact h
  | cons a rest ih => exact ih (h.perform a)

end Matcher

end Wildcard
