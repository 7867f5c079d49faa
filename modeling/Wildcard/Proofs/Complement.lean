import Wildcard.Proofs.Selection

/-!
# A pattern and its negation

Filtering candidates by a pattern and by the pattern behind an exclamation mark puts every
candidate into exactly one of the two answers, each in the order of the candidates, or fails both
times for the same reason. Both calls strip down to the same text before the cache is asked, and
neither writes it. So it does not matter what the cache holds for that text, nor which call comes
first.

* `matchOneOf_snd`: what filtering answers, from the regex that the matcher has for the text.
* `matchOneOf_complementary`: the law, in every state and in both orders.
-/

namespace Wildcard

/-! ## 1. Splitting a list in two -/

/-- The elements of a list are dealt to two lists, each to exactly one, and each list keeps their
    order. -/
inductive Splits {α : Type} : List α → List α → List α → Prop
  | nil : Splits [] [] []
  | left {x : α} {xs ys zs : List α} : Splits xs ys zs → Splits (x :: xs) (x :: ys) zs
  | right {x : α} {xs ys zs : List α} : Splits xs ys zs → Splits (x :: xs) ys (x :: zs)

/-- What passes a test and what does not split a list. -/
theorem splits_filter {α : Type} (test : α → Bool) (xs : List α) :
    Splits xs (xs.filter test) (xs.filter fun x => !test x) := by
  induction xs with
  | nil => exact .nil
  | cons x xs ih =>
    cases htest : test x with
    | true =>
      rw [List.filter_cons_of_pos htest, List.filter_cons_of_neg (by simp [htest])]
      exact ih.left
    | false =>
      rw [List.filter_cons_of_neg (by simp [htest]), List.filter_cons_of_pos (by simp [htest])]
      exact ih.right

namespace Matcher

/-! ## 2. Filtering values -/

section Filtering

variable {m m' : Matcher} {options : Option MatchOptions}

/-- **What filtering answers**: what is given has to be a sequence, then the pattern has to
    compile, and then all that is in the sequence has to be a candidate. -/
theorem matchOneOf_snd (m : Matcher) (candidates : Value) (pattern : List Char)
    (options : Option MatchOptions) :
    (m.matchOneOf candidates (.text pattern) options).2 =
      (candidates.asSequence .candidates).bind fun vs =>
        (m.regexFor (negation options pattern).2 options).bind fun r =>
          (Value.asCandidates vs).map fun cs =>
            cs.filter fun c => r.accepts c != (negation options pattern).1 := by
  unfold matchOneOf
  cases candidates.asSequence .candidates with
  | error e => rfl
  | ok vs =>
    have hone (cs : List (List Char)) := matchOne_snd m options cs pattern
    unfold filterOne Value.asPattern
    simp only [Except.bind]
    cases Value.asCandidates vs with
    | ok cs =>
      simp only [hone]
      cases m.regexFor (negation options pattern).2 options <;> rfl
    | error e =>
      have hnone := hone []
      generalize m.matchOne [] pattern options = found at hnone ⊢
      obtain ⟨m', r⟩ := found
      cases hregex : m.regexFor (negation options pattern).2 options with
      | error e' =>
        rw [hregex] at hnone
        cases hnone
        rfl
      | ok regex =>
        rw [hregex] at hnone
        cases hnone
        rfl

/-! ## 3. The law -/

/-- Two answers to filtering the same candidates: the same failure, or lists that split them and
    have no text in common. -/
inductive Complementary (candidates : Value) :
    Except MatchError (List (List Char)) → Except MatchError (List (List Char)) → Prop
  | failed (e : MatchError) : Complementary candidates (.error e) (.error e)
  | split {vs : List Value} {cs kept left : List (List Char)} :
      candidates.asSequence .candidates = .ok vs → Value.asCandidates vs = .ok cs →
        Splits cs kept left → kept.Disjoint left → Complementary candidates (.ok kept) (.ok left)

/-- All that counts is what the cache holds. -/
theorem complementary_of_cache {pattern : List Char}
    (hnegates : MatchOptions.negates options = true) (hpattern : pattern.head? ≠ some '!')
    (hcache : m'.cache = m.cache) (candidates : Value) :
    Complementary candidates (m.matchOneOf candidates (.text pattern) options).2
      (m'.matchOneOf candidates (.text ('!' :: pattern)) options).2 := by
  rw [matchOneOf_snd, matchOneOf_snd, negation_of_head? hpattern, negation_negated hnegates,
    regexFor_congr hcache]
  cases hvs : candidates.asSequence .candidates with
  | error e => exact .failed e
  | ok vs =>
    simp only [Except.bind]
    cases m.regexFor pattern options with
    | error e => exact .failed e
    | ok r =>
      cases hcs : Value.asCandidates vs with
      | error e => exact .failed e
      | ok cs =>
        have hsplits := splits_filter r.accepts cs
        have hdisjoint : (cs.filter r.accepts).Disjoint (cs.filter fun c => !r.accepts c) := by
          intro c hkept hleft
          have haccepted := (List.mem_filter.mp hkept).2
          have hrefused := (List.mem_filter.mp hleft).2
          rw [haccepted] at hrefused
          cases hrefused
        refine .split hvs hcs ?_ ?_
        · simpa using hsplits
        · simpa using hdisjoint

/-- **A pattern and its negation** give complementary answers in every state, whatever the cache
    holds for the pattern: both asked in one state, or one after the other in either order. -/
theorem matchOneOf_complementary {pattern : List Char}
    (hnegates : MatchOptions.negates options = true) (hpattern : pattern.head? ≠ some '!')
    (m : Matcher) (candidates : Value) :
    let one (m : Matcher) := m.matchOneOf candidates (.text pattern) options
    let other (m : Matcher) := m.matchOneOf candidates (.text ('!' :: pattern)) options
    Complementary candidates (one m).2 (other m).2 ∧
      Complementary candidates (one m).2 (other (one m).1).2 ∧
        Complementary candidates (one (other m).1).2 (other m).2 := by
  intro one other
  have hkept := keptFiltering_cache m.cache
  have hone : (one m).1.cache = m.cache := hkept.matchOneOf rfl candidates _ options
  have hother : (other m).1.cache = m.cache := hkept.matchOneOf rfl candidates _ options
  exact ⟨complementary_of_cache hnegates hpattern rfl candidates,
    complementary_of_cache hnegates hpattern hone candidates,
    complementary_of_cache hnegates hpattern hother.symm candidates⟩

/-- With a regex registered for the pattern that has nothing to do with its text. -/
theorem matchOneOf_complementary_registered :
    let m := ({} : Matcher).performAll [.register (.text "*.js".toList) (.regex anything)]
    let candidates : Value := .list [.text "b.c".toList, .text [], .text "b.c".toList]
    (m.matchOneOf candidates (.text "*.js".toList) none).2 =
        .ok ["b.c".toList, "b.c".toList] ∧
      Complementary candidates (m.matchOneOf candidates (.text "*.js".toList) none).2
        (m.matchOneOf candidates (.text "!*.js".toList) none).2 :=
  ⟨rfl, (matchOneOf_complementary rfl (by decide) _ _).1⟩

end Filtering

end Matcher

end Wildcard
