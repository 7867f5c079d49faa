import Wildcard.Proofs.Subtraction

/-!
# One negated pattern behind others

What a negated pattern takes out of what the patterns before it list is found by filtering with the
text behind its exclamation mark. If that text begins with an exclamation mark again, filtering takes
it for a negation as well: then not the candidates that the text matches as a pattern are taken out,
but those that the text behind the second mark does not match. A negated pattern by itself is
stripped of one mark only.

* `diff_eq_diff_iff`: when taking out two lists of items leaves the same.
* `matchAll_append_snd`: the negated pattern takes out what its text finds.
* `matchAll_append_negated`: the answer, and when it is as if one mark had been stripped.
-/

namespace Wildcard

/-! ## 1. Taking out the same -/

section Occurrences

variable {α : Type} [BEq α] [LawfulBEq α]

/-- **Two lists take the same out** of a third if they list each of its items equally often, as far
    as there are occurrences to take out. -/
theorem diff_eq_diff_iff {xs ys zs : List α} :
    xs.diff ys = xs.diff zs ↔
      ∀ x ∈ xs, min (ys.count x) (xs.count x) = min (zs.count x) (xs.count x) := by
  constructor
  · intro h x _
    have hcount := congrArg (List.count x) h
    rw [List.count_diff, List.count_diff] at hcount
    omega
  · intro h
    have hsame : (fun x => min (ys.count x) (xs.count x)) =
        fun x => min (zs.count x) (xs.count x) := by
      funext x
      by_cases hx : x ∈ xs
      · exact h x hx
      · rw [List.count_eq_zero.mpr hx, Nat.min_zero, Nat.min_zero]
    rw [diff_eq_withoutFirst, diff_eq_withoutFirst, ← withoutFirst_min, hsame, withoutFirst_min]

/-- Taking out what passes a test or what passes another is the same if the tests agree on what is
    there. -/
theorem diff_filter_eq_iff {xs candidates : List α} (hxs : xs ⊆ candidates) {test test' : α → Bool} :
    xs.diff (candidates.filter test) = xs.diff (candidates.filter test') ↔
      ∀ x ∈ xs, test x = test' x := by
  have hcount (x : α) (t : α → Bool) :
      (candidates.filter t).count x = if t x = true then candidates.count x else 0 := by
    split
    · rename_i ht
      exact List.count_filter ht
    · rename_i ht
      exact List.count_eq_zero.mpr fun hmem => ht (List.mem_filter.mp hmem).2
  rw [diff_eq_diff_iff]
  refine forall₂_congr fun x hx => ?_
  have hthere : 0 < xs.count x := List.count_pos_iff.mpr hx
  have hcandidate : 0 < candidates.count x := List.count_pos_iff.mpr (hxs hx)
  rw [hcount, hcount]
  cases test x <;> cases test' x <;> simp <;> omega

end Occurrences

namespace Matcher

/-! ## 2. The last of several patterns -/

section Last

variable {m : Matcher} {options : Option MatchOptions} {candidates positive : List (List Char)}
  {found : List Char → List (List Char)} {pattern : List Char}

/-- Filtering finds nothing but candidates. -/
theorem subset_of_matchOne {answer : List (List Char)}
    (h : (m.matchOne candidates pattern options).2 = .ok answer) : answer ⊆ candidates := by
  rw [matchOne_snd] at h
  cases hregex : m.regexFor (negation options pattern).2 options with
  | error e =>
    rw [hregex] at h
    cases h
  | ok r =>
    rw [hregex] at h
    cases h
    exact List.filter_subset_self _

/-- The first pattern that fails is what going through patterns fails with. -/
theorem select_error {patterns : List (List Char)} {last : List Char} {e : MatchError}
    (hfound : ∀ p ∈ patterns, (m.matchOne candidates (negation options p).2 options).2 =
      .ok (found p))
    (hlast : (m.matchOne candidates (negation options last).2 options).2 = .error e)
    (s : Selection) :
    (Matcher.select candidates options m s (patterns ++ [last])).2 = .error e := by
  induction patterns generalizing m s with
  | nil =>
    rw [List.nil_append, Matcher.select]
    simp only
    generalize m.matchOne candidates (negation options last).2 options = one at hlast
    obtain ⟨m', r⟩ := one
    cases hlast
    rfl
  | cons p rest ih =>
    have hcache := cache_matchOne m options candidates (negation options p).2
    have hfirst := hfound p List.mem_cons_self
    rw [List.cons_append, Matcher.select]
    simp only
    generalize m.matchOne candidates (negation options p).2 options = one at hcache hfirst
    obtain ⟨m', r⟩ := one
    cases hfirst
    refine ih (fun q hq => ?_) ?_ _
    · rw [matchOne_congr hcache]
      exact hfound q (List.mem_cons_of_mem p hq)
    · rw [matchOne_congr hcache]
      exact hlast

theorem one_lt_length_append {α : Type} {xs : List α} (h : xs ≠ []) (x : α) :
    1 < (xs ++ [x]).length := by
  have hpos : 0 < xs.length := List.length_pos_iff.mpr h
  rw [List.length_append, List.length_singleton]
  omega

variable (hnegates : MatchOptions.negates options = true) (hpositive : positive ≠ [])
  (hplain : ∀ p ∈ positive, p.head? ≠ some '!')
  (hfound : ∀ p ∈ positive, (m.matchOne candidates p options).2 = .ok (found p))

include hnegates hpositive hplain hfound in
/-- **The negated pattern takes out** what filtering by the text behind its mark finds. -/
theorem matchAll_append_snd {omitted : List (List Char)}
    (homitted : (m.matchOne candidates pattern options).2 = .ok omitted) :
    (m.matchAll candidates (positive ++ ['!' :: pattern]) options).2 =
      .ok ((positive.flatMap found).diff omitted) := by
  have hsign (p : List Char) (hp : p ∈ positive) : negation options p = (false, p) :=
    negation_of_head? (hplain p hp)
  have hlast : negation options ('!' :: pattern) = (true, pattern) := negation_negated hnegates _
  have hpositives : positives options (positive ++ ['!' :: pattern]) = positive := by
    have hkept : positive.filter (fun p => !(negation options p).1) = positive :=
      List.filter_eq_self.mpr fun p hp => by rw [hsign p hp]; rfl
    rw [positives, List.filter_append, hkept]
    simp [hlast]
  have hnegatives : negatives options (positive ++ ['!' :: pattern]) = ['!' :: pattern] := by
    have hnone : positive.filter (fun p => (negation options p).1) = [] :=
      List.filter_eq_nil_iff.mpr fun p hp => by simp [hsign p hp]
    rw [negatives, List.filter_append, hnone]
    simp [hlast]
  -- the patterns before the last one are not the last one
  let listed (p : List Char) : List (List Char) := if p = '!' :: pattern then omitted else found p
  have hlisted : ∀ p ∈ positive, listed p = found p := by
    intro p hp
    refine if_neg fun heq => hplain p hp ?_
    rw [heq]
    rfl
  have hall : ∀ p ∈ positive ++ ['!' :: pattern],
      (m.matchOne candidates (negation options p).2 options).2 = .ok (listed p) := by
    intro p hp
    rcases List.mem_append.mp hp with hp | hp
    · rw [hsign p hp, hlisted p hp]
      exact hfound p hp
    · rw [List.mem_singleton.mp hp, hlast, homitted]
      simp [listed]
  have hflat : positive.flatMap listed = positive.flatMap found := List.flatMap_congr hlisted
  have homit : ['!' :: pattern].flatMap listed = omitted := by simp [listed]
  rw [matchAll_positive_snd (one_lt_length_append hpositive _) (by rwa [hpositives]) hall,
    hpositives, hnegatives, hflat, homit, withoutFirst_min, diff_eq_withoutFirst]

include hnegates hpositive hplain hfound in
/-- If filtering by the text behind the mark fails, so does the whole call. -/
theorem matchAll_append_error (hcandidates : candidates ≠ []) {e : MatchError}
    (herror : (m.matchOne candidates pattern options).2 = .error e) :
    (m.matchAll candidates (positive ++ ['!' :: pattern]) options).2 = .error e := by
  have hfound' : ∀ p ∈ positive, (m.matchOne candidates (negation options p).2 options).2 =
      .ok (found p) := by
    intro p hp
    rw [negation_of_head? (hplain p hp)]
    exact hfound p hp
  have hlast : (m.matchOne candidates (negation options ('!' :: pattern)).2 options).2 =
      .error e := by
    rw [negation_negated hnegates]
    exact herror
  rw [matchAll_snd hcandidates (one_lt_length_append hpositive _), select_error hfound' hlast]
  rfl

include hnegates hpositive hplain hfound in
/-- **One negated pattern behind others** takes out, one occurrence for each candidate, what its text
    matches, and the same candidates are left out when the negated pattern stands alone. But where
    the text begins with an exclamation mark again, the candidates taken out are those that the text
    behind the second mark does not match, and if that text fails to compile, so does the call. Then
    the answer is as if one mark had been stripped exactly if the two texts disagree on whatever the
    patterns before list. -/
theorem matchAll_append_negated {g : CompiledGlob}
    (hcompile : (m.makeRegex pattern options none).2 = .ok g) :
    let answer := (m.matchAll candidates (positive ++ ['!' :: pattern]) options).2
    let listed := positive.flatMap found
    (m.matchOne candidates ('!' :: pattern) options).2 =
        .ok (candidates.filter fun c => !g.accepts c) ∧
      (m.matchAll candidates ['!' :: pattern] options).2 =
        .ok (candidates.filter fun c => !g.accepts c) ∧
      (pattern.head? ≠ some '!' →
        answer = .ok (listed.diff (candidates.filter g.accepts))) ∧
      ∀ bare, pattern = '!' :: bare →
        (∀ e, candidates ≠ [] → (m.makeRegex bare options none).2 = .error e →
          answer = .error e) ∧
        ∀ g', (m.makeRegex bare options none).2 = .ok g' →
          answer = .ok (listed.diff (candidates.filter fun c => !g'.accepts c)) ∧
          (answer = .ok (listed.diff (candidates.filter g.accepts)) ↔
            ∀ x ∈ listed, g.accepts x = !g'.accepts x) := by
  intro answer listed
  have halone : (m.matchOne candidates ('!' :: pattern) options).2 =
      .ok (candidates.filter fun c => !g.accepts c) := matchOne_of_negated hnegates hcompile
  refine ⟨halone, ?_, fun hone => ?_, ?_⟩
  · by_cases hnone : candidates = []
    · subst hnone
      rfl
    · unfold matchAll
      rw [if_neg (by simp [hnone])]
      exact halone
  · exact matchAll_append_snd hnegates hpositive hplain hfound (matchOne_of_makeRegex hone hcompile)
  · rintro bare rfl
    refine ⟨fun e hcandidates herror => ?_, fun g' hbare => ?_⟩
    · refine matchAll_append_error hnegates hpositive hplain hfound hcandidates ?_
      rw [matchOne_snd, negation_negated hnegates, ← regex_makeRegex m bare options none, herror]
      rfl
    · have hanswer := matchAll_append_snd hnegates hpositive hplain hfound
        (matchOne_of_negated hnegates hbare)
      refine ⟨hanswer, ?_⟩
      have hlisted : listed ⊆ candidates := by
        intro x hx
        obtain ⟨p, hp, hx⟩ := List.mem_flatMap.mp hx
        exact subset_of_matchOne (hfound p hp) hx
      rw [show answer = _ from hanswer, Except.ok.injEq, diff_filter_eq_iff hlisted]
      exact forall₂_congr fun x _ => eq_comm

/-- A text with a mark of its own: behind others the pattern takes `b` out, alone it leaves all
    candidates in. -/
theorem matchAll_append_negated_marked :
    (({} : Matcher).matchAll ["a".toList, "b".toList, "a".toList]
        (["a".toList, "*".toList] ++ ["!!a".toList]) none).2 =
      .ok ["a".toList, "a".toList, "a".toList, "a".toList] ∧
    (({} : Matcher).matchAll ["a".toList, "b".toList, "a".toList] ["!!a".toList] none).2 =
      .ok ["a".toList, "b".toList, "a".toList] := by
  let found (p : List Char) : List (List Char) :=
    (({} : Matcher).matchOne ["a".toList, "b".toList, "a".toList] p none).2.toOption.getD []
  have hfound : ∀ p ∈ ["a".toList, "*".toList],
      (({} : Matcher).matchOne ["a".toList, "b".toList, "a".toList] p none).2 = .ok (found p) := by
    rw [List.forall_mem_cons, List.forall_mem_singleton]
    exact ⟨rfl, rfl⟩
  obtain ⟨-, halone, -, hagain⟩ := @matchAll_append_negated {} none
    ["a".toList, "b".toList, "a".toList] ["a".toList, "*".toList] found "!a".toList rfl (by simp)
    (by decide) hfound _ rfl
  obtain ⟨hanswer, -⟩ := (hagain "a".toList rfl).2 _ rfl
  refine ⟨hanswer.trans ?_, halone.trans ?_⟩
  · decide +kernel
  · decide +kernel

/-- No candidate is matched by `!a` as a pattern, and yet one is taken out. -/
theorem matchAll_append_negated_twice :
    (({} : Matcher).matchAll ["a".toList, "b".toList] (["*".toList] ++ ["!!a".toList]) none).2 =
        .ok ["a".toList] ∧
      (({} : Matcher).matchOne ["a".toList, "b".toList] "*".toList none).2 =
        .ok ["a".toList, "b".toList] ∧
      ∃ g, (({} : Matcher).makeRegex "!a".toList none none).2 = .ok g ∧
        ["a".toList, "b".toList].filter g.accepts = [] := by
  refine ⟨?_, ?_, _, rfl, ?_⟩
  · rfl
  · rfl
  · rfl

end Last

end Matcher

end Wildcard
