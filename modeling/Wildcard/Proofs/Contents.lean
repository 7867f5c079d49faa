import Wildcard.Proofs.Predicate
import Mathlib.Data.List.Induction

/-!
# What the cache holds

The calls that may put an entry into the cache are recorded as they are made, and the record is
begun anew when the cache is cleared. Which calls those are is told by their arguments alone: the
cache is not looked at. After every run the cache is what the record says (`Recorded`): a text has
the entry last registered for it or, if none was registered, the one of the first call that
compiled it without options.

* `entryOf_append_registered`, `entryOf_append_compiled`: what one more deposit changes.
* `Recorded.perform`: one action, one lemma for each operation that may write. Filtering never does.
* `Recorded.performAll`: a whole run, by induction on its actions.
* `get?_performAll`: an entry stays until the cache is cleared or its text is registered again.
* `contents_performAll`: the law for the cache of every run.
-/

namespace Wildcard

/-! ## 1. Deposits -/

/-- An entry that a call brings to the cache. -/
inductive Deposit where
  /-- Registered by hand: it replaces the entry that is there. -/
  | registered (pattern : List Char) (g : CompiledGlob)
  /-- What a pattern is compiled to for a call that may write the cache. If the text has an entry
      already nothing is compiled, and that entry stays. -/
  | compiled (pattern : List Char) (g : CompiledGlob)

namespace Deposit

/-- The text that an entry is for. -/
def pattern : Deposit → List Char
  | registered p _ => p
  | compiled p _ => p

/-- The entry, if it is registered for this text. -/
def registered? (p : List Char) : Deposit → Option CompiledGlob
  | registered q g => if q = p then some g else none
  | compiled _ _ => none

/-- The entry, if it is compiled for this text. -/
def compiled? (p : List Char) : Deposit → Option CompiledGlob
  | registered _ _ => none
  | compiled q g => if q = p then some g else none

end Deposit

/-- The entry that a record of deposits leaves for a text: the last one that was registered or, if
    none was, the first one that was compiled. -/
def entryOf (record : List Deposit) (p : List Char) : Option CompiledGlob :=
  (record.filterMap (·.registered? p)).getLast?.or (record.filterMap (·.compiled? p)).head?

section Entries

variable (record : List Deposit) (p q : List Char) (g : CompiledGlob)

/-- What is registered for a text is its entry from then on. -/
theorem entryOf_append_registered :
    entryOf (record ++ [.registered p g]) q = if q = p then some g else entryOf record q := by
  unfold entryOf
  rw [List.filterMap_append, List.filterMap_append]
  by_cases h : q = p
  · simp [Deposit.registered?, h]
  · simp [Deposit.registered?, Deposit.compiled?, h, Ne.symm h]

/-- What is compiled for a text is its entry unless there is one. -/
theorem entryOf_append_compiled :
    entryOf (record ++ [.compiled p g]) q =
      (entryOf record q).or (if q = p then some g else none) := by
  unfold entryOf
  rw [List.filterMap_append, List.filterMap_append]
  by_cases h : q = p
  · simp [Deposit.registered?, Deposit.compiled?, h]
  · simp [Deposit.registered?, Deposit.compiled?, h, Ne.symm h]

/-- A text has an entry exactly if some deposit is for it. -/
theorem isSome_entryOf : (entryOf record p).isSome = true ↔ ∃ d ∈ record, d.pattern = p := by
  induction record using List.reverseRecOn with
  | nil => simp [entryOf]
  | append_singleton record d ih =>
    cases d with
    | registered q g =>
      rw [entryOf_append_registered]
      by_cases h : p = q
      · simp [h, Deposit.pattern]
      · simp [h, ih, Deposit.pattern, Ne.symm h]
    | compiled q g =>
      rw [entryOf_append_compiled]
      by_cases h : p = q
      · simp [h, Deposit.pattern]
      · simp [h, ih, Deposit.pattern, Ne.symm h]

/-- An entry stays as long as nothing is registered for its text. -/
theorem entryOf_append_of_not_registered {record more : List Deposit} {p : List Char}
    {g : CompiledGlob} (h : entryOf record p = some g)
    (hmore : ∀ d ∈ more, d.registered? p = none) : entryOf (record ++ more) p = some g := by
  induction more using List.reverseRecOn with
  | nil => rwa [List.append_nil]
  | append_singleton more d ih =>
    obtain ⟨hbefore, hlast⟩ := List.forall_mem_append.mp hmore
    have hd : d.registered? p = none := hlast d List.mem_cons_self
    rw [← List.append_assoc]
    cases d with
    | registered q g' =>
      have hq : p ≠ q := by
        rintro rfl
        simp [Deposit.registered?] at hd
      rw [entryOf_append_registered, if_neg hq, ih hbefore]
    | compiled q g' => rw [entryOf_append_compiled, ih hbefore, Option.some_or]

end Entries

namespace Matcher

/-! ## 2. What calls bring to the cache -/

section Deposits

variable (m : Matcher) (options : Option MatchOptions) (negated : Option Bool)

/-- What compiling a pattern brings: its compilation, if it succeeds and the call neither has
    options nor says whether it negates. -/
def requested (pattern : List Char) : List Deposit :=
  if options.isNone && negated.isNone then
    match CompiledGlob.ofPattern pattern none none m.made with
    | .ok g => [.compiled pattern g]
    | .error _ => []
  else []

/-- What compiling a pattern of unknown kind brings. -/
def requestedOf : Value → List Deposit
  | .text p => m.requested options negated p
  | _ => []

/-- What deciding about a candidate brings: nothing if one of the shortcuts is taken. -/
def decided (candidate pattern : Value) : List Deposit :=
  match candidate, pattern with
  | .text _, .text p =>
    if Text.isBlankText p || isLiteralPattern p then [] else m.requested options negated p
  | _, _ => []

end Deposits

/-- What an operation brings that is run for each of a list of values. -/
def gathered {β : Type} (op : Matcher → Value → Matcher × β)
    (deposits : Matcher → Value → List Deposit) : Matcher → List Value → List Deposit
  | _, [] => []
  | m, v :: rest => deposits m v ++ gathered op deposits (op m v).1 rest

/-- The entry that is registered for a text, if what is handed over is one. -/
def submission? (p : List Char) : Registrable → Option CompiledGlob
  | .regex r => some (globOfRegex p r)
  | .globOf source options => (({} : Matcher).makeRegexOf source options none).2.toOption
  | .other _ => none

/-- What registering brings. -/
def submitted (m : Matcher) (pattern : Value) (entry : Registrable) : List Deposit :=
  match pattern with
  | .text p =>
    match submission? p entry with
    | some g => [.registered p { g with serial := m.made }]
    | none => []
  | _ => []

/-- What an action brings to the cache. -/
def deposits (m : Matcher) : Action → List Deposit
  | .makeRegex pattern options negated => m.requestedOf options negated pattern
  | .predicate pattern options negated _ => m.requestedOf options negated pattern
  | .isMatch candidates pattern options negated =>
    gathered (fun m c => m.isMatchOf c pattern options negated)
      (fun m c => m.decided options negated c pattern) m candidates
  | .isMatchPatterns candidate patterns options negated =>
    gathered (fun m p => m.isMatchOf candidate p options negated)
      (fun m p => m.decided options negated candidate p) m patterns
  | .register pattern entry => m.submitted pattern entry
  | .registerDefaults =>
    let one := ['*', '*', '/', '*', '*']
    let two := ['*', '*']
    [.registered one { globOfRegex one anything with serial := m.made },
      .registered two { globOfRegex two anything with serial := m.made + 1 }]
  | _ => []

/-- The record once an action is performed: clearing the cache begins it anew. -/
def recordAfter (m : Matcher) (record : List Deposit) (a : Action) : List Deposit :=
  match a with
  | .clearCache => []
  | a => record ++ m.deposits a

/-- The record at the end of a run. -/
def recordOf (m : Matcher) (record : List Deposit) : List Action → List Deposit
  | [] => record
  | a :: rest => recordOf (m.perform a).1 (m.recordAfter record a) rest

/-! ## 3. One operation -/

/-- The cache holds what the record says, and the memo says of each text what is true of it. -/
structure Recorded (record : List Deposit) (m : Matcher) : Prop where
  memo : m.literals.Sound fun p => (.ok (isLiteralPattern p) : Except Empty Bool)
  contents : ∀ p, m.cache.get? p = entryOf record p

theorem recorded_empty : Recorded [] {} where
  memo := faithful_empty.memo
  contents _ := rfl

section Operations

variable {record : List Deposit} {m : Matcher} {options : Option MatchOptions}
  {negated : Option Bool}

/-- The cache is all that counts, apart from the memo. -/
theorem Recorded.of_cache {m' : Matcher} (h : Recorded record m) (hcache : m'.cache = m.cache)
    (hliterals : m'.literals = m.literals) : Recorded record m' where
  memo := by
    rw [hliterals]
    exact h.memo
  contents p := by
    rw [hcache]
    exact h.contents p

/-- What brings nothing leaves the record as it is. -/
theorem Recorded.unchanged (h : Recorded record m) : Recorded (record ++ []) m := by
  rwa [List.append_nil]

theorem literals_makeRegex (m : Matcher) (pattern : List Char) (options : Option MatchOptions)
    (negated : Option Bool) : (m.makeRegex pattern options negated).1.literals = m.literals := by
  unfold makeRegex
  split
  · rfl
  · split
    · rfl
    · simp only
      split <;> rfl

/-- A call that may write the cache gives an entry to its pattern, if that has none and compiles. -/
theorem get?_makeRegex (m : Matcher) (pattern p : List Char) :
    (m.makeRegex pattern none none).1.cache.get? p =
      (m.cache.get? p).or (if p = pattern then
        (CompiledGlob.ofPattern pattern none none m.made).toOption else none) := by
  unfold makeRegex
  rw [if_pos (by rfl)]
  cases hcached : m.cache.get? pattern with
  | some g =>
    by_cases hp : p = pattern
    · rw [hp, hcached, Option.some_or]
    · rw [if_neg hp, Option.or_none]
  | none =>
    cases CompiledGlob.ofPattern pattern none none m.made with
    | error e =>
      simp only [Except.toOption, ite_self, Option.or_none]
    | ok g =>
      refine (PatternCache.get?_insert _ _ _ _).trans ?_
      by_cases hp : p = pattern
      · rw [if_pos hp, if_pos hp, hp, hcached]
        rfl
      · rw [if_neg hp, if_neg hp, Option.or_none]
        rfl

/-- **Compiling a pattern** keeps the record true. -/
theorem Recorded.makeRegex (h : Recorded record m) (pattern : List Char) :
    Recorded (record ++ m.requested options negated pattern)
      (m.makeRegex pattern options negated).1 := by
  have hliterals := literals_makeRegex m pattern options negated
  unfold requested
  by_cases hwrites : (options.isNone && negated.isNone) = true
  · rw [if_pos hwrites]
    obtain ⟨hoptions, hnegated⟩ := Bool.and_eq_true_iff.mp hwrites
    rw [Option.isNone_iff_eq_none] at hoptions hnegated
    subst hoptions hnegated
    refine ⟨hliterals ▸ h.memo, fun p => ?_⟩
    rw [get?_makeRegex, h.contents p]
    cases CompiledGlob.ofPattern pattern none none m.made with
    | ok g => exact (entryOf_append_compiled record pattern p g).symm
    | error e => simp [Except.toOption]
  · rw [if_neg hwrites, List.append_nil]
    exact h.of_cache (cache_makeRegex_of_not_writes hwrites pattern) hliterals

theorem Recorded.makeRegexOf (h : Recorded record m) (pattern : Value) :
    Recorded (record ++ m.requestedOf options negated pattern)
      (m.makeRegexOf pattern options negated).1 := by
  cases pattern with
  | text p => exact h.makeRegex p
  | _ => exact h.unchanged

/-- Filtering leaves the record true as it is. -/
theorem recorded_filtering (record : List Deposit) : KeptFiltering (Recorded record) where
  makeRegex m pattern options negated h :=
    h.of_cache (cache_makeRegex m pattern options negated) (literals_makeRegex m pattern _ _)

/-- What compiling brings depends on the number of compilations alone. -/
theorem requested_congr {m' : Matcher} (h : m'.made = m.made) (pattern : List Char) :
    m'.requested options negated pattern = m.requested options negated pattern := by
  unfold requested
  rw [h]

theorem accepts_fst (m : Matcher) (candidate pattern : List Char) (options : Option MatchOptions)
    (negated : Option Bool) :
    (m.accepts candidate pattern options negated).1 = (m.makeRegex pattern options negated).1 := by
  unfold Matcher.accepts
  obtain ⟨m', r⟩ := m.makeRegex pattern options negated
  cases r <;> rfl

theorem Recorded.faithful (h : Recorded record m) : Faithful true m :=
  ⟨h.memo, fun hheld => nomatch hheld⟩

theorem requested_of_ignoreCase {flags : Regex.Flags}
    (hflags : MatchOptions.regexFlags options = .ok flags) (hcase : flags.ignoreCase = true)
    (m : Matcher) (pattern : List Char) : m.requested options negated pattern = [] := by
  cases options with
  | none =>
    cases hflags
    cases hcase
  | some o => rfl

/-- **Deciding about a candidate** keeps the record true: comparing texts writes nothing. -/
theorem Recorded.isMatch (h : Recorded record m) (candidate pattern : List Char) :
    Recorded (record ++ m.decided options negated (.text candidate) (.text pattern))
      (m.isMatch candidate pattern options negated).1 := by
  obtain ⟨hliteral, hcache, hmade, hfaithful⟩ := h.faithful.isLiteral pattern
  have hleft : Recorded record (m.isLiteral pattern).1 :=
    ⟨hfaithful.memo, fun p => hcache ▸ h.contents p⟩
  have hdecides := decides_isMatch m candidate pattern options negated
  generalize m.isMatch candidate pattern options negated = result at hdecides ⊢
  change Recorded (record ++ if Text.isBlankText pattern || isLiteralPattern pattern then []
    else m.requested options negated pattern) _
  cases hdecides with
  | blank hblank =>
    rw [hblank, Bool.true_or, if_pos rfl, List.append_nil]
    exact h
  | unknownFlag _ hfound _ =>
    rw [hfound] at hliteral hleft
    rw [← hliteral, Bool.or_true, if_pos rfl, List.append_nil]
    exact hleft
  | compared _ hfound _ _ =>
    rw [hfound] at hliteral hleft
    rw [← hliteral, Bool.or_true, if_pos rfl, List.append_nil]
    exact hleft
  | @compiled m' literal hblank hfound hcase =>
    rw [hfound] at hliteral hleft hmade
    simp only at hliteral hleft hmade
    have hcompiled : Recorded (record ++ m.requested options negated pattern)
        (m'.accepts candidate pattern options negated).1 := by
      rw [accepts_fst, ← requested_congr hmade]
      exact hleft.makeRegex pattern
    rw [hblank, ← hliteral, Bool.false_or]
    cases literal with
    | false => exact hcompiled
    | true =>
      -- a call that ignores case has options, and so it writes nothing
      obtain ⟨flags, hflags, hignore⟩ := hcase rfl
      rw [requested_of_ignoreCase hflags hignore] at hcompiled
      exact hcompiled

theorem Recorded.isMatchOf (h : Recorded record m) (candidate pattern : Value) :
    Recorded (record ++ m.decided options negated candidate pattern)
      (m.isMatchOf candidate pattern options negated).1 := by
  have hsame := h.unchanged
  cases candidate with
  | text c =>
    cases pattern with
    | text p => exact h.isMatch c p
    | _ => exact hsame
  | _ => exact hsame

/-- **What is registered** replaces the entry of its text. -/
theorem Recorded.register (h : Recorded record m) (pattern : List Char) (g : CompiledGlob) :
    Recorded (record ++ [.registered pattern { g with serial := m.made }])
      (m.register pattern g) where
  memo := h.memo
  contents p := by
    rw [entryOf_append_registered, ← h.contents p]
    exact PatternCache.get?_insert _ _ _ _

theorem Recorded.registerEntry (h : Recorded record m) (pattern : Value) (entry : Registrable) :
    Recorded (record ++ m.submitted pattern entry) (m.registerEntry pattern entry).1 := by
  have hsame := h.unchanged
  cases entry with
  | regex r =>
    cases pattern with
    | text p => exact h.register p (globOfRegex p r)
    | _ => exact hsame
  | globOf source options =>
    unfold Matcher.registerEntry submitted submission?
    simp only
    generalize ({} : Matcher).makeRegexOf source options none = made
    obtain ⟨other, result⟩ := made
    have hevents : Recorded record { m with events := other.events ++ m.events } :=
      h.of_cache rfl rfl
    have hnone : Recorded (record ++ []) { m with events := other.events ++ m.events } :=
      hsame.of_cache rfl rfl
    cases result with
    | error e => cases pattern <;> exact hnone
    | ok g =>
      cases pattern with
      | text p => exact hevents.register p g
      | _ => exact hnone
  | other v => cases pattern <;> exact hsame

/-- An operation for each of a list of values keeps the record true if each time it does. -/
theorem Recorded.forEach {β : Type} {op : Matcher → Value → Matcher × β}
    {deposits : Matcher → Value → List Deposit}
    (hop : ∀ {record m} v, Recorded record m → Recorded (record ++ deposits m v) (op m v).1)
    (h : Recorded record m) (values : List Value) :
    Recorded (record ++ gathered op deposits m values) (Matcher.forEach op m values).1 := by
  induction values generalizing record m with
  | nil => exact h.unchanged
  | cons v rest ih =>
    rw [gathered, ← List.append_assoc]
    exact ih (hop v h)

/-! ## 4. Actions and runs -/

/-- Making a predicate does no more than compiling the pattern. -/
theorem perform_predicate_fst (m : Matcher) (pattern : Value) (options : Option MatchOptions)
    (negated : Option Bool) (candidates : List Value) :
    (m.perform (.predicate pattern options negated candidates)).1 =
      (m.makeRegexOf pattern options negated).1 := by
  rw [perform]
  obtain ⟨m', r⟩ := m.makeRegexOf pattern options negated
  cases r <;> rfl

/-- **One action** keeps the record true. -/
theorem Recorded.perform (h : Recorded record m) (a : Action) :
    Recorded (m.recordAfter record a) (m.perform a).1 := by
  have hsame := h.unchanged
  cases a with
  | makeRegex pattern options negated => exact h.makeRegexOf pattern
  | predicate pattern options negated candidates =>
    rw [perform_predicate_fst]
    exact h.makeRegexOf pattern
  | isMatch candidates pattern options negated =>
    exact h.forEach (fun c h => h.isMatchOf c pattern) candidates
  | isMatchPatterns candidate patterns options negated =>
    exact h.forEach (fun p h => h.isMatchOf candidate p) patterns
  | matchOne candidates pattern options =>
    exact (recorded_filtering _).matchOneOf hsame candidates pattern options
  | matchAll candidates patterns options =>
    exact (recorded_filtering _).matchAllOf hsame candidates patterns options
  | applySet data candidates =>
    rw [Matcher.perform]
    split
    · exact hsame
    · exact (recorded_filtering _).matchAllOf hsame candidates _ _
  | clearCache => exact ⟨h.memo, fun p => PatternCache.get?_clear m.cache p⟩
  | registerDefaults =>
    let one := ['*', '*', '/', '*', '*']
    let two := ['*', '*']
    have hboth := (h.register one (globOfRegex one anything)).register two (globOfRegex two anything)
    rwa [List.append_assoc] at hboth
  | register pattern entry => exact h.registerEntry pattern entry
  | cached pattern => exact hsame
  | isCached pattern => exact hsame
  | literalPatterns => exact hsame

/-- **A run** keeps the record true. -/
theorem Recorded.performAll (h : Recorded record m) (actions : List Action) :
    Recorded (m.recordOf record actions) (m.performAll actions) := by
  induction actions generalizing record m with
  | nil => exact h
  | cons a rest ih => exact ih (h.perform a)

end Operations

end Matcher

/-! ## 5. Entries that stay -/

namespace Action

/-- Whether an action registers an entry for a text. -/
def registersFor (p : List Char) : Action → Bool
  | registerDefaults => p == ['*', '*', '/', '*', '*'] || p == ['*', '*']
  | register (.text q) entry => q == p && (Matcher.submission? q entry).isSome
  | _ => false

/-- Whether an action has options or filters candidates. -/
def spares : Action → Bool
  | makeRegex _ options _ => options.isSome
  | predicate _ options _ _ => options.isSome
  | isMatch _ _ options _ => options.isSome
  | isMatchPatterns _ _ options _ => options.isSome
  | matchOne _ _ _ => true
  | matchAll _ _ _ => true
  | applySet _ _ => true
  | _ => false

end Action

namespace Matcher

section Staying

variable {record : List Deposit} {m : Matcher} {p : List Char} {g : CompiledGlob}

/-- What compiling brings is not registered. -/
theorem registered?_of_mem_requested {options : Option MatchOptions} {negated : Option Bool}
    {pattern : List Char} {d : Deposit} (h : d ∈ m.requested options negated pattern)
    (p : List Char) : d.registered? p = none := by
  unfold requested at h
  split at h
  · split at h
    · rw [List.mem_singleton.mp h]
      rfl
    · cases h
  · cases h

theorem registered?_of_mem_requestedOf {options : Option MatchOptions} {negated : Option Bool}
    {pattern : Value} {d : Deposit} (h : d ∈ m.requestedOf options negated pattern)
    (p : List Char) : d.registered? p = none := by
  unfold requestedOf at h
  split at h
  · exact registered?_of_mem_requested h p
  · cases h

theorem registered?_of_mem_decided {options : Option MatchOptions} {negated : Option Bool}
    {candidate pattern : Value} {d : Deposit} (h : d ∈ m.decided options negated candidate pattern)
    (p : List Char) : d.registered? p = none := by
  unfold decided at h
  split at h
  · split at h
    · cases h
    · exact registered?_of_mem_requested h p
  · cases h

theorem exists_of_mem_gathered {β : Type} {op : Matcher → Value → Matcher × β}
    {deposits : Matcher → Value → List Deposit} {values : List Value} {d : Deposit}
    (h : d ∈ gathered op deposits m values) : ∃ m' v, d ∈ deposits m' v := by
  induction values generalizing m with
  | nil => cases h
  | cons v rest ih =>
    rcases List.mem_append.mp h with hfirst | hrest
    · exact ⟨m, v, hfirst⟩
    · exact ih hrest

/-- An action that registers nothing for a text brings nothing registered for it. -/
theorem registered?_of_mem_deposits {a : Action} (ha : a.registersFor p = false) {d : Deposit}
    (h : d ∈ m.deposits a) : d.registered? p = none := by
  cases a with
  | makeRegex pattern options negated => exact registered?_of_mem_requestedOf h p
  | predicate pattern options negated candidates => exact registered?_of_mem_requestedOf h p
  | isMatch candidates pattern options negated =>
    obtain ⟨m', c, hd⟩ := exists_of_mem_gathered h
    exact registered?_of_mem_decided hd p
  | isMatchPatterns candidate patterns options negated =>
    obtain ⟨m', q, hd⟩ := exists_of_mem_gathered h
    exact registered?_of_mem_decided hd p
  | registerDefaults =>
    rw [Action.registersFor, Bool.or_eq_false_iff] at ha
    obtain ⟨hone, htwo⟩ := ha
    rcases List.mem_cons.mp h with rfl | h
    · exact if_neg (Ne.symm (ne_of_beq_false hone))
    · rw [List.mem_singleton.mp h]
      exact if_neg (Ne.symm (ne_of_beq_false htwo))
  | register pattern entry =>
    change d ∈ m.submitted pattern entry at h
    unfold submitted at h
    split at h
    · rename_i q
      split at h
      · rename_i g hg
        have hq : q ≠ p := by
          rintro rfl
          simp [Action.registersFor, hg] at ha
        rw [List.mem_singleton.mp h]
        exact if_neg hq
      · cases h
    · cases h
  | _ => cases h

/-- **An entry stays** as long as the cache is not cleared and nothing is registered for its
    text. -/
theorem get?_performAll (h : Recorded record m) (hg : m.cache.get? p = some g)
    {more : List Action} (hmore : ∀ a ∈ more, a ≠ .clearCache ∧ a.registersFor p = false) :
    (m.performAll more).cache.get? p = some g := by
  induction more generalizing record m with
  | nil => exact hg
  | cons a rest ih =>
    obtain ⟨⟨hclear, hregisters⟩, hrest⟩ := List.forall_mem_cons.mp hmore
    have hstep := h.perform a
    refine ih hstep ?_ hrest
    have hrecord : m.recordAfter record a = record ++ m.deposits a := by
      cases a <;> first | rfl | exact absurd rfl hclear
    rw [h.contents p] at hg
    rw [hstep.contents p, hrecord]
    exact entryOf_append_of_not_registered hg fun d hd => registered?_of_mem_deposits hregisters hd

/-- What the cache holds for a text is what compiling it gives. -/
theorem makeRegex_of_get? (hg : m.cache.get? p = some g) (negated : Option Bool) :
    m.makeRegex p none negated = (m, .ok g) := by
  unfold makeRegex
  rw [if_pos (by rfl), hg]

end Staying

/-! ## 6. Calls that leave the cache as it is -/

section Sparing

variable {m : Matcher} {options : Option MatchOptions} {negated : Option Bool} {e : MatchError}

theorem cache_makeRegex_of_error {pattern : List Char}
    (h : (m.makeRegex pattern options negated).2 = .error e) :
    (m.makeRegex pattern options negated).1.cache = m.cache := by
  unfold makeRegex at h ⊢
  split
  · rfl
  · rename_i hcached
    rw [hcached] at h
    split
    · rfl
    · rename_i g hcompile
      simp only [hcompile] at h
      split at h <;> cases h

theorem cache_makeRegexOf_of_error {pattern : Value}
    (h : (m.makeRegexOf pattern options negated).2 = .error e) :
    (m.makeRegexOf pattern options negated).1.cache = m.cache := by
  cases pattern with
  | text p => exact cache_makeRegex_of_error h
  | _ => rfl

theorem cache_makeRegexOf_of_options (o : MatchOptions) (pattern : Value) :
    (m.makeRegexOf pattern (some o) negated).1.cache = m.cache := by
  cases pattern with
  | text p =>
    have hspared : ¬ ((some o).isNone && negated.isNone) = true := Bool.false_ne_true
    exact cache_makeRegex_of_not_writes hspared p
  | _ => rfl

theorem cache_isLiteral (m : Matcher) (pattern : List Char) :
    (m.isLiteral pattern).1.cache = m.cache := by
  unfold isLiteral
  generalize m.literals.get (fun p => (.ok (isLiteralPattern p) : Except Empty Bool)) pattern =
    found
  obtain ⟨literals, result⟩ := found
  cases result with
  | ok b => rfl
  | error e => exact nomatch e

/-- Deciding about a candidate leaves the cache as it is, unless the pattern is compiled. -/
theorem cache_isMatch_or_accepts (m : Matcher) (candidate pattern : List Char)
    (options : Option MatchOptions) (negated : Option Bool) :
    (m.isMatch candidate pattern options negated).1.cache = m.cache ∨
      ∃ m' : Matcher, m'.cache = m.cache ∧ m.isMatch candidate pattern options negated =
        m'.accepts candidate pattern options negated := by
  have hlookup := cache_isLiteral m pattern
  have hdecides := decides_isMatch m candidate pattern options negated
  generalize m.isMatch candidate pattern options negated = result at hdecides ⊢
  cases hdecides with
  | blank _ => exact .inl rfl
  | unknownFlag _ hfound _ =>
    rw [hfound] at hlookup
    exact .inl hlookup
  | compared _ hfound _ _ =>
    rw [hfound] at hlookup
    exact .inl hlookup
  | compiled _ hfound _ =>
    rw [hfound] at hlookup
    exact .inr ⟨_, hlookup, rfl⟩

theorem cache_isMatchOf_of_options (o : MatchOptions) (candidate pattern : Value) :
    (m.isMatchOf candidate pattern (some o) negated).1.cache = m.cache := by
  cases candidate with
  | text c =>
    cases pattern with
    | text p =>
      change (m.isMatch c p (some o) negated).1.cache = m.cache
      rcases cache_isMatch_or_accepts m c p (some o) negated with hcache | ⟨m', hcache, hcompiled⟩
      · exact hcache
      · rw [hcompiled, accepts_fst]
        exact (cache_makeRegexOf_of_options o (.text p)).trans hcache
    | _ => rfl
  | _ => rfl

/-- **A decision that fails** leaves the cache as it is. -/
theorem cache_isMatchOf_of_error {candidate pattern : Value}
    (h : (m.isMatchOf candidate pattern options negated).2 = .error e) :
    (m.isMatchOf candidate pattern options negated).1.cache = m.cache := by
  cases candidate with
  | text c =>
    cases pattern with
    | text p =>
      change (m.isMatch c p options negated).2 = .error e at h
      change (m.isMatch c p options negated).1.cache = m.cache
      rcases cache_isMatch_or_accepts m c p options negated with hcache | ⟨m', hcache, hcompiled⟩
      · exact hcache
      · rw [hcompiled] at h ⊢
        rw [accepts_fst, ← hcache]
        refine @cache_makeRegex_of_error m' options negated e p ?_
        unfold accepts at h
        generalize m'.makeRegex p options negated = made at h
        obtain ⟨m'', r⟩ := made
        cases r with
        | ok g => cases h
        | error e' => exact congrArg _ (Except.error.inj h)
    | _ => rfl
  | _ => rfl

/-- **An action with options, or that filters,** leaves the cache as it is. -/
theorem cache_perform_of_spares {a : Action} (h : a.spares = true) :
    (m.perform a).1.cache = m.cache := by
  have hfiltering := keptFiltering_cache m.cache
  cases a with
  | makeRegex pattern options negated =>
    obtain ⟨o, rfl⟩ := Option.isSome_iff_exists.mp h
    exact cache_makeRegexOf_of_options o pattern
  | predicate pattern options negated candidates =>
    obtain ⟨o, rfl⟩ := Option.isSome_iff_exists.mp h
    rw [perform_predicate_fst]
    exact cache_makeRegexOf_of_options o pattern
  | isMatch candidates pattern options negated =>
    obtain ⟨o, rfl⟩ := Option.isSome_iff_exists.mp h
    exact @forEach_kept (·.cache = m.cache) _ (fun m c => m.isMatchOf c pattern (some o) negated)
      (fun m' c hm => (cache_isMatchOf_of_options o c pattern).trans hm) m rfl candidates
  | isMatchPatterns candidate patterns options negated =>
    obtain ⟨o, rfl⟩ := Option.isSome_iff_exists.mp h
    exact @forEach_kept (·.cache = m.cache) _ (fun m p => m.isMatchOf candidate p (some o) negated)
      (fun m' p hm => (cache_isMatchOf_of_options o candidate p).trans hm) m rfl patterns
  | matchOne candidates pattern options =>
    exact hfiltering.matchOneOf rfl candidates pattern options
  | matchAll candidates patterns options =>
    exact hfiltering.matchAllOf rfl candidates patterns options
  | applySet data candidates =>
    rw [perform]
    split
    · rfl
    · exact hfiltering.matchAllOf rfl candidates _ _
  | _ => cases h

/-- **An action that fails** leaves the cache as it is. -/
theorem cache_perform_of_failed {a : Action} {f : Failure} (h : (m.perform a).2 = .failed f) :
    (m.perform a).1.cache = m.cache := by
  cases a with
  | makeRegex pattern options negated =>
    cases hresult : (m.makeRegexOf pattern options negated).2 with
    | error e => exact cache_makeRegexOf_of_error hresult
    | ok g =>
      change Answer.ofResult .glob (m.makeRegexOf pattern options negated).2 = .failed f at h
      rw [hresult] at h
      cases h
  | predicate pattern options negated candidates =>
    rw [perform_predicate_fst]
    cases hresult : (m.makeRegexOf pattern options negated).2 with
    | error e => exact cache_makeRegexOf_of_error hresult
    | ok g =>
      rw [perform] at h
      generalize m.makeRegexOf pattern options negated = made at h hresult
      obtain ⟨m', r⟩ := made
      cases hresult
      cases h
  | matchOne candidates pattern options => exact cache_perform_of_spares rfl
  | matchAll candidates patterns options => exact cache_perform_of_spares rfl
  | applySet data candidates => exact cache_perform_of_spares rfl
  | register pattern entry =>
    have hregisters : m.registers (.register pattern entry) = false := by
      change (m.registerEntry pattern entry).2 = .failed f at h
      rw [registers, h]
    obtain ⟨events, hevents⟩ := registerEntry_of_not_registers hregisters
    rw [perform, hevents]
  | cached pattern => rfl
  | isCached pattern => rfl
  | _ => cases h

end Sparing

/-! ## 7. The cache of every run -/

/-- **After every run** the cache holds for each text what the record says, and so it holds an entry
    exactly for the texts of which there is a deposit since it was last cleared. The entry of a text
    is what compiling the text without options gives, until the cache is cleared or the text is
    registered again. Calls with options, those that filter and those that fail leave the cache as
    it is. -/
theorem contents_performAll (actions : List Action) :
    let m := ({} : Matcher).performAll actions
    let record := ({} : Matcher).recordOf [] actions
    (∀ p, m.cache.get? p = entryOf record p ∧
      ((m.cache.get? p).isSome = true ↔ ∃ d ∈ record, d.pattern = p)) ∧
    (∀ p g, m.cache.get? p = some g → ∀ more : List Action,
      (∀ a ∈ more, a ≠ .clearCache ∧ a.registersFor p = false) →
        ∀ negated, ((m.performAll more).makeRegex p none negated).2 = .ok g) ∧
    (∀ a : Action, (a.spares = true ∨ ∃ f, (m.perform a).2 = .failed f) →
      (m.perform a).1.cache = m.cache) ∧
    (∀ candidate pattern options negated e,
      (m.isMatchOf candidate pattern options negated).2 = .error e →
        (m.isMatchOf candidate pattern options negated).1.cache = m.cache) := by
  intro m record
  have hrecorded : Recorded record m := recorded_empty.performAll actions
  refine ⟨fun p => ⟨hrecorded.contents p, ?_⟩, ?_, ?_, ?_⟩
  · rw [hrecorded.contents p]
    exact isSome_entryOf record p
  · intro p g hg more hmore negated
    rw [makeRegex_of_get? (get?_performAll hrecorded hg hmore) negated]
  · intro a ha
    rcases ha with hspares | ⟨f, hfailed⟩
    · exact cache_perform_of_spares hspares
    · exact cache_perform_of_failed hfailed
  · intro candidate pattern options negated e he
    exact cache_isMatchOf_of_error he

/-- Two decisions compile a pattern once, a call that says whether it negates writes nothing, and
    what was registered is gone once the cache was cleared. -/
theorem contents_performAll_mixed :
    let m := ({} : Matcher).performAll [.register (.text "?".toList) (.regex anything), .clearCache,
      .makeRegex (.text "?".toList) none (some true), .makeRegex (.text "[b-a]".toList) none none,
      .isMatch [.text "b.c".toList, .text "a".toList] (.text "*.c".toList) none none]
    m.cache.keys = ["*.c".toList] ∧ ∃ g, m.cache.get? "*.c".toList = some g ∧
      ((m.performAll [.register (.text "?".toList) (.regex anything),
        .makeRegex (.text "*.c".toList) none none]).makeRegex "*.c".toList none (some true)).2 =
          .ok g := by
  refine ⟨rfl, _, rfl, ?_⟩
  exact (contents_performAll _).2.1 _ _ rfl _
    (by simp [Action.registersFor]) _

end Matcher

end Wildcard
