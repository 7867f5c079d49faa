import Wildcard.Proofs.Predicate

/-!
# What a matcher remembers is never observed

A matcher finds compiled patterns in its cache, and what it found out about texts in its memo. As
long as nothing was registered by hand, neither shows: an action that asks about candidates is
answered as a matcher answers it that remembers nothing.

* `Transparent`: an operation leaves a faithful matcher faithful, and all faithful matchers answer
  it alike. One operation after the other is transparent (`Transparent.bind`), and so is compiling
  a pattern, as long as the regex alone is looked at (`transparent_makeRegex`).
* `transparent_perform`: the actions that ask about candidates are transparent.
* `perform_performAll`: after every run without registrations they are answered as by the empty
  matcher.
-/

namespace Wildcard

namespace Matcher

/-! ## 1. Transparent operations -/

/-- An operation that leaves faithful matchers faithful, and that all of them answer alike. -/
structure Transparent {β : Type} (op : Matcher → Matcher × β) : Prop where
  keeps : ∀ {m : Matcher}, Faithful false m → Faithful false (op m).1
  alike : ∀ {m m' : Matcher}, Faithful false m → Faithful false m' → (op m).2 = (op m').2

section Combining

variable {β γ : Type}

theorem Transparent.congr {op op' : Matcher → Matcher × β} (h : Transparent op)
    (heq : ∀ m, op' m = op m) : Transparent op' := by
  rw [show op' = op from funext heq]
  exact h

/-- An answer that is given without the matcher. -/
theorem transparent_pure (b : β) : Transparent fun m => (m, b) where
  keeps := id
  alike := fun _ _ => rfl

/-- One operation after the other. -/
theorem Transparent.bind {op : Matcher → Matcher × β} {next : β → Matcher → Matcher × γ}
    (h : Transparent op) (hnext : ∀ b, Transparent (next b)) :
    Transparent fun m => next (op m).2 (op m).1 where
  keeps := fun hm => (hnext _).keeps (h.keeps hm)
  alike := by
    intro m m' hm hm'
    have hsame : (op m).2 = (op m').2 := h.alike hm hm'
    change (next (op m).2 (op m).1).2 = (next (op m').2 (op m').1).2
    rw [hsame]
    exact (hnext _).alike (h.keeps hm) (h.keeps hm')

/-- One operation after the other, where the first may fail and its error is passed on. -/
def andThen {ε : Type} (op : Matcher → Matcher × Except ε β)
    (next : β → Matcher → Matcher × Except ε γ) (m : Matcher) : Matcher × Except ε γ :=
  match op m with
  | (m, .ok b) => next b m
  | (m, .error e) => (m, .error e)

theorem Transparent.andThen {ε : Type} {op : Matcher → Matcher × Except ε β}
    {next : β → Matcher → Matcher × Except ε γ} (h : Transparent op)
    (hnext : ∀ b, Transparent (next b)) : Transparent (andThen op next) := by
  have hcases (r : Except ε β) : Transparent fun m =>
      match r with
      | .ok b => next b m
      | .error e => (m, .error e) := by
    cases r with
    | ok b => exact hnext b
    | error e => exact transparent_pure _
  refine (h.bind hcases).congr fun m => ?_
  rw [Matcher.andThen]
  obtain ⟨m', r⟩ := op m
  cases r <;> rfl

/-- What is made of an answer. -/
theorem Transparent.map {op : Matcher → Matcher × β} (h : Transparent op) (f : β → γ) :
    Transparent fun m => ((op m).1, f (op m).2) :=
  h.bind fun b => transparent_pure (f b)

/-- An operation for each of a list of values. -/
theorem transparent_forEach {op : Matcher → Value → Matcher × β}
    (h : ∀ v, Transparent fun m => op m v) (values : List Value) :
    Transparent fun m => forEach op m values := by
  induction values with
  | nil => exact transparent_pure []
  | cons v rest ih =>
    exact (h v).bind fun b => ih.bind fun bs => transparent_pure (b :: bs)

end Combining

/-! ## 2. Compiling -/

/-- Looking the memo up. -/
theorem transparent_isLiteral (pattern : List Char) :
    Transparent fun m => m.isLiteral pattern where
  keeps := (kept_faithful false).isLiteral _ pattern
  alike := by
    intro m m' hm hm'
    rw [(hm.isLiteral pattern).1, (hm'.isLiteral pattern).1]

variable (options : Option MatchOptions) (negated : Option Bool)

/-- **Compiling a pattern** is transparent as long as the regex alone is looked at. -/
theorem transparent_makeRegex (pattern : List Char) :
    Transparent fun m => ((m.makeRegex pattern options negated).1,
      (m.makeRegex pattern options negated).2.map (·.regex)) where
  keeps := (kept_faithful false).makeRegex _ pattern options negated
  alike := by
    intro m m' hm hm'
    simp only [regex_makeRegex]
    rw [hm.regexFor, hm'.regexFor]

/-! ## 3. Matching -/

theorem transparent_accepts (candidate pattern : List Char) :
    Transparent fun m => m.accepts candidate pattern options negated where
  keeps := ((kept_faithful false).accepts · candidate pattern options negated)
  alike := by
    intro m m' hm hm'
    rw [accepts_snd, accepts_snd, hm.regexFor, hm'.regexFor]

theorem transparent_isMatch (candidate pattern : List Char) :
    Transparent fun m => m.isMatch candidate pattern options negated := by
  have haccepts := transparent_accepts options negated candidate pattern
  -- what is done once the memo has been looked up
  have hnext {direct : Matcher → Matcher × Except MatchError Bool} (h : Transparent direct)
      (literal : Bool) : Transparent fun m =>
        if literal then direct m else m.accepts candidate pattern options negated := by
    cases literal with
    | false => exact haccepts
    | true => exact h
  have hmemo {direct : Matcher → Matcher × Except MatchError Bool} (h : Transparent direct) :=
    (transparent_isLiteral pattern).bind (hnext h)
  unfold isMatch
  split
  · exact transparent_pure _
  · cases MatchOptions.regexFlags options with
    | error letter =>
      refine (hmemo (transparent_pure (.error (.unknownFlag letter)))).congr fun m => ?_
      obtain ⟨m', literal⟩ := m.isLiteral pattern
      cases literal <;> rfl
    | ok flags =>
      by_cases hcase : flags.ignoreCase = true
      · refine (hmemo haccepts).congr fun m => ?_
        obtain ⟨m', literal⟩ := m.isLiteral pattern
        simp only [hcase, if_true]
        cases literal <;> rfl
      · have hdirect : Transparent fun m =>
            (m, (.ok (matchesLiteral candidate pattern) : Except MatchError Bool)) :=
          transparent_pure _
        refine (hmemo hdirect).congr fun m => ?_
        obtain ⟨m', literal⟩ := m.isLiteral pattern
        simp only [hcase]
        cases literal <;> rfl

theorem transparent_matchOne (candidates : List (List Char)) (pattern : List Char) :
    Transparent fun m => m.matchOne candidates pattern options where
  keeps := ((kept_faithful false).filtering.matchOne · candidates pattern options)
  alike := by
    intro m m' hm hm'
    rw [matchOne_snd, matchOne_snd, hm.regexFor, hm'.regexFor]

theorem transparent_select (candidates : List (List Char)) (s : Selection)
    (patterns : List (List Char)) :
    Transparent fun m => Matcher.select candidates options m s patterns := by
  induction patterns generalizing s with
  | nil => exact transparent_pure _
  | cons pattern rest ih =>
    unfold Matcher.select
    generalize negation options pattern = signed
    obtain ⟨negated, bare⟩ := signed
    have hrest (found : List (List Char)) := ih
      (if negated then { s with omitted := s.omitted ++ found }
        else { s with kept := s.kept ++ found, positive := true })
    refine ((transparent_matchOne options candidates bare).andThen hrest).congr fun m => ?_
    simp only [andThen]
    obtain ⟨m', r⟩ := m.matchOne candidates bare options
    cases r <;> rfl

theorem transparent_matchAll (candidates patterns : List (List Char)) :
    Transparent fun m => m.matchAll candidates patterns options := by
  unfold matchAll
  split
  · exact transparent_pure _
  · split
    · exact transparent_matchOne options candidates _
    · have hresult (s : Selection) : Transparent fun m =>
          (m, (.ok (s.result candidates) : Except MatchError (List (List Char)))) :=
        transparent_pure _
      refine ((transparent_select options candidates {} patterns).andThen hresult).congr
        fun m => ?_
      rw [andThen]
      obtain ⟨m', r⟩ := Matcher.select candidates options m {} patterns
      cases r <;> rfl

/-! ## 4. Matching values of unknown kind -/

theorem transparent_makeRegexOf (pattern : Value) :
    Transparent fun m => ((m.makeRegexOf pattern options negated).1,
      (m.makeRegexOf pattern options negated).2.map (·.regex)) := by
  unfold makeRegexOf
  cases pattern.asPattern with
  | ok p => exact transparent_makeRegex options negated p
  | error e => exact transparent_pure _

theorem transparent_isMatchOf (candidate pattern : Value) :
    Transparent fun m => m.isMatchOf candidate pattern options negated := by
  unfold isMatchOf
  split
  · exact transparent_pure _
  · split
    · exact transparent_pure _
    · exact transparent_isMatch options negated _ _

theorem transparent_filterOne (candidates : List Value) (pattern : Value) :
    Transparent fun m => m.filterOne candidates pattern options := by
  unfold filterOne
  cases pattern.asPattern with
  | error e => exact transparent_pure _
  | ok p =>
    cases Value.asCandidates candidates with
    | ok cs => exact transparent_matchOne options cs p
    | error e =>
      have herror (_ : List (List Char)) : Transparent fun m =>
          (m, (.error e : Except MatchError (List (List Char)))) := transparent_pure _
      refine ((transparent_matchOne options [] p).andThen herror).congr fun m => ?_
      simp only [andThen]
      obtain ⟨m', r⟩ := m.matchOne [] p options
      cases r <;> rfl

theorem transparent_failing (candidates : List Value) (cause : MatchError)
    (patterns : List Value) :
    Transparent fun m => Matcher.failing candidates options cause m patterns := by
  induction patterns with
  | nil => exact transparent_pure _
  | cons pattern rest ih =>
    have hnext (bare : Value) :=
      (transparent_filterOne options candidates bare).andThen fun _ => ih
    simp only [failing]
    split
    · rename_i p
      refine (hnext (.text (negation options p).2)).congr fun m => ?_
      simp only [andThen]
      obtain ⟨m', r⟩ := m.filterOne candidates (.text (negation options p).2) options
      cases r <;> rfl
    · refine (hnext pattern).congr fun m => ?_
      simp only [andThen]
      obtain ⟨m', r⟩ := m.filterOne candidates pattern options
      cases r <;> rfl

theorem transparent_matchOneOf (candidates pattern : Value) :
    Transparent fun m => m.matchOneOf candidates pattern options := by
  unfold matchOneOf
  split
  · exact transparent_pure _
  · exact transparent_filterOne options _ pattern

theorem transparent_matchAllOf (candidates patterns : Value) :
    Transparent fun m => m.matchAllOf candidates patterns options := by
  unfold matchAllOf
  split
  · exact transparent_pure _
  · split
    · exact transparent_pure _
    · split
      · exact transparent_pure _
      · split
        · exact transparent_filterOne options _ _
        · split
          · exact transparent_matchAll options _ _
          · exact transparent_failing options _ _ _
          · exact transparent_failing options _ _ _

end Matcher

/-! ## 5. Actions -/

namespace Action

/-- Whether an action is one that registers entries by hand, be it that it fails to. -/
def registersByHand : Action → Bool
  | register _ _ | registerDefaults => true
  | _ => false

/-- Whether an action asks about candidates. -/
def asks : Action → Bool
  | predicate _ _ _ _ | isMatch _ _ _ _ | isMatchPatterns _ _ _ _ | matchOne _ _ _
  | matchAll _ _ _ | applySet _ _ => true
  | _ => false

end Action

namespace Matcher

/-- **The actions that ask about candidates** are transparent. -/
theorem transparent_perform {a : Action} (h : a.asks = true) :
    Transparent fun m => m.perform a := by
  cases a with
  | predicate pattern options negated candidates =>
    -- the predicate asks the regex alone
    let answer : Except MatchError Search → Answer
      | .ok r => .each (candidates.map fun c => c.asCandidate.map r.accepts)
      | .error e => .failed (.matching e)
    refine ((transparent_makeRegexOf options negated pattern).map answer).congr fun m => ?_
    rw [perform]
    obtain ⟨m', r⟩ := m.makeRegexOf pattern options negated
    cases r with
    | error e => rfl
    | ok g =>
      have heach : acceptsValue g = fun c => c.asCandidate.map g.regex.accepts := by
        funext c
        unfold acceptsValue
        cases c.asCandidate <;> rfl
      simp only [heach]
      rfl
  | isMatch candidates pattern options negated =>
    exact (transparent_forEach (fun c => transparent_isMatchOf options negated c pattern)
      candidates).map Answer.each
  | isMatchPatterns candidate patterns options negated =>
    exact (transparent_forEach (fun p => transparent_isMatchOf options negated candidate p)
      patterns).map Answer.each
  | matchOne candidates pattern options =>
    exact (transparent_matchOneOf options candidates pattern).map (Answer.ofResult Answer.texts)
  | matchAll candidates patterns options =>
    exact (transparent_matchAllOf options candidates patterns).map (Answer.ofResult Answer.texts)
  | applySet data candidates =>
    cases hset : PatternSet.ofValue data with
    | error e =>
      simp only [perform, hset]
      exact transparent_pure _
    | ok s =>
      simp only [perform, hset]
      exact (transparent_matchAllOf s.options candidates _).map (Answer.ofResult Answer.texts)
  | _ => cases h

/-- Nothing registered by hand is held where no action registers. -/
theorem holdsRegistered_of_not_registersByHand {actions : List Action}
    (h : ∀ a ∈ actions, a.registersByHand = false) (m : Matcher) :
    m.holdsRegistered false actions = false := by
  induction actions generalizing m with
  | nil => rfl
  | cons a rest ih =>
    have hafter : m.holdsAfter false a = false := by
      have ha := h a List.mem_cons_self
      cases a <;> first | rfl | cases ha
    rw [holdsRegistered, hafter]
    exact ih (fun b hb => h b (List.mem_cons_of_mem a hb)) _

/-- **After every run without registrations** an action that asks about candidates is answered as
    by a matcher that remembers nothing, with the same error if it fails. -/
theorem perform_performAll {actions : List Action} {a : Action}
    (h : ∀ b ∈ actions, b.registersByHand = false) (ha : a.asks = true) :
    ((performAll {} actions).perform a).2 = (perform {} a).2 := by
  have hrun : Faithful false (performAll {} actions) := by
    have hfaithful := faithful_empty.performAll actions
    rw [holdsRegistered_of_not_registersByHand h] at hfaithful
    exact hfaithful
  exact (transparent_perform ha).alike hrun faithful_empty

/-- A pattern that was compiled before and after the cache was cleared, a pattern that does not
    compile and one that is in the memo, and then a question about the first. -/
theorem perform_performAll_mixed :
    ((performAll {} [.makeRegex (.text "*.c".toList) none none,
        .matchOne (.list [.text "a.c".toList]) (.text "[b-a]".toList) none, .clearCache,
        .isMatch [.text "b".toList] (.text "b".toList) none none,
        .makeRegex (.text "*.c".toList) none none]).perform
      (.matchAll (.list [.text "a.c".toList, .text "b".toList])
        (.list [.text "!*.c".toList, .text "*".toList]) none)).2 =
      (perform {} (.matchAll (.list [.text "a.c".toList, .text "b".toList])
        (.list [.text "!*.c".toList, .text "*".toList]) none)).2 :=
  perform_performAll (by decide) (by decide)

end Matcher

end Wildcard
