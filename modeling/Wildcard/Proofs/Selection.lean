import Wildcard.Proofs.Predicate
import Mathlib.Data.List.Count
import Mathlib.Data.List.Basic

/-!
# What several patterns select

Of several patterns, the ones that are not negated list what they match, one after the other, and
what the negated ones match is taken out, one occurrence for each time it is listed. Where all
patterns are negated all candidates are there to begin with, unless nothing is listed to be taken
out: then nothing is selected at all.

* `select_snd`: what is kept and what is omitted, by the answers for each pattern.
* `diff_eq_filter`: taking out at least as many occurrences as there are takes out all.
* `matchAll_of_all_negated`: what negated patterns alone select.
-/

namespace Wildcard

/-! ## 1. Taking out occurrences -/

/-- **Taking out** at least as many occurrences of each text as there are leaves the others, in
    their order. -/
theorem diff_eq_filter {α : Type} [BEq α] [LawfulBEq α] {xs omitted : List α}
    (h : ∀ x ∈ omitted, xs.count x ≤ omitted.count x) :
    xs.diff omitted = xs.filter fun x => !omitted.contains x := by
  induction xs generalizing omitted with
  | nil => exact List.nil_diff omitted
  | cons x rest ih =>
    rw [List.cons_diff]
    by_cases hx : x ∈ omitted
    · have hcount := h x hx
      rw [List.count_cons_self] at hcount
      -- what is still to be taken out suffices for the rest
      have hrest : ∀ y ∈ omitted.erase x, rest.count y ≤ (omitted.erase x).count y := by
        intro y hy
        by_cases hyx : y = x
        · rw [hyx, List.count_erase_self]
          omega
        · rw [List.count_erase_of_ne hyx]
          exact Nat.le_trans List.count_le_count_cons (h y (List.mem_of_mem_erase hy))
      have hsame : ∀ y ∈ rest, (y ∈ omitted.erase x ↔ y ∈ omitted) := by
        intro y hy
        by_cases hyx : y = x
        · have hpos : 0 < rest.count y := List.count_pos_iff.mpr hy
          have hleft : 0 < (omitted.erase x).count y := by
            rw [hyx, List.count_erase_self]
            rw [hyx] at hpos
            omega
          exact iff_of_true (List.count_pos_iff.mp hleft) (hyx ▸ hx)
        · exact List.mem_erase_of_ne hyx
      rw [if_pos hx, ih hrest, List.filter_cons_of_neg (by simpa using hx)]
      refine List.filter_congr fun y hy => ?_
      rw [Bool.eq_iff_iff]
      simp [hsame y hy]
    · rw [if_neg hx, List.filter_cons_of_pos (by simpa using hx), ih]
      intro y hy
      have hyx : x ≠ y := fun heq => hx (heq ▸ hy)
      have hcount := h y hy
      rwa [List.count_cons_of_ne hyx] at hcount

namespace Matcher

/-! ## 2. Going through patterns -/

section Select

variable {m m' : Matcher} {candidates : List (List Char)} {options : Option MatchOptions}

/-- Filtering depends on the cache of the matcher alone. -/
theorem matchOne_congr (h : m'.cache = m.cache) (pattern : List Char) :
    (m'.matchOne candidates pattern options).2 = (m.matchOne candidates pattern options).2 := by
  rw [matchOne_snd, matchOne_snd, regexFor_congr h]

/-- **Going through patterns** lists what is found for those that are not negated, and apart from
    that what is found for the negated ones. -/
theorem select_snd {patterns : List (List Char)} {found : List Char → List (List Char)}
    (h : ∀ p ∈ patterns, (m.matchOne candidates (negation options p).2 options).2 =
      .ok (found p)) (s : Selection) :
    (Matcher.select candidates options m s patterns).2 = .ok {
      kept := s.kept ++ (patterns.filter fun p => !(negation options p).1).flatMap found
      omitted := s.omitted ++ (patterns.filter fun p => (negation options p).1).flatMap found
      positive := s.positive || patterns.any fun p => !(negation options p).1 } := by
  induction patterns generalizing m s with
  | nil => simp [Matcher.select]
  | cons p rest ih =>
    have hcache := cache_matchOne m options candidates (negation options p).2
    have hfound := h p List.mem_cons_self
    rw [Matcher.select]
    simp only
    generalize m.matchOne candidates (negation options p).2 options = one at hcache hfound
    obtain ⟨m', r⟩ := one
    cases hfound
    have hrest : ∀ q ∈ rest, (m'.matchOne candidates (negation options q).2 options).2 =
        .ok (found q) := by
      intro q hq
      rw [matchOne_congr hcache]
      exact h q (List.mem_cons_of_mem p hq)
    simp only
    rw [ih hrest]
    cases hnegated : (negation options p).1 <;>
      simp [hnegated]

/-- More than one pattern is gone through. -/
theorem matchAll_snd {patterns : List (List Char)} (hcandidates : candidates ≠ [])
    (hmore : 1 < patterns.length) :
    (m.matchAll candidates patterns options).2 =
      (Matcher.select candidates options m {} patterns).2.map (·.result candidates) := by
  unfold matchAll
  have hpatterns : patterns ≠ [] := List.ne_nil_of_length_pos (by omega)
  rw [if_neg (not_or.mpr ⟨hcandidates, hpatterns⟩)]
  split
  · simp at hmore
  · obtain ⟨m', r⟩ := Matcher.select candidates options m {} patterns
    cases r <;> rfl

end Select

/-! ## 3. Negated patterns alone -/

section Negated

variable {m : Matcher} {candidates bare : List (List Char)} {options : Option MatchOptions}
  {glob : List Char → CompiledGlob}

theorem negation_negated (h : MatchOptions.negates options = true) (pattern : List Char) :
    negation options ('!' :: pattern) = (true, pattern) := by
  unfold negation
  rw [h]
  rfl

theorem negation_of_head? {pattern : List Char} (h : pattern.head? ≠ some '!') :
    negation options pattern = (false, pattern) := by
  unfold negation
  split
  · exact absurd rfl h
  · rfl

/-- What is found for a pattern that no exclamation mark begins. -/
theorem matchOne_of_makeRegex {pattern : List Char} {g : CompiledGlob}
    (hsingle : pattern.head? ≠ some '!')
    (hcompile : (m.makeRegex pattern options none).2 = .ok g) :
    (m.matchOne candidates pattern options).2 = .ok (candidates.filter g.accepts) := by
  rw [matchOne_snd, negation_of_head? hsingle, regexFor_of_makeRegex hcompile]
  simp [Except.map, CompiledGlob.accepts_regex]

/-- What is found for a negated pattern. -/
theorem matchOne_of_negated {pattern : List Char} {g : CompiledGlob}
    (hnegates : MatchOptions.negates options = true)
    (hcompile : (m.makeRegex pattern options none).2 = .ok g) :
    (m.matchOne candidates ('!' :: pattern) options).2 =
      .ok (candidates.filter fun c => !g.accepts c) := by
  rw [matchOne_snd, negation_negated hnegates, regexFor_of_makeRegex hcompile]
  simp [Except.map, CompiledGlob.accepts_regex]

/-- What each of the compiled patterns accepts, one after the other. -/
def matched (glob : List Char → CompiledGlob) (bare candidates : List (List Char)) :
    List (List Char) :=
  bare.flatMap fun p => candidates.filter (glob p).accepts

/-- The candidates that none of the compiled patterns accepts. -/
def unmatched (glob : List Char → CompiledGlob) (bare candidates : List (List Char)) :
    List (List Char) :=
  candidates.filter fun c => !bare.any fun p => (glob p).accepts c

theorem mem_matched {x : List Char} :
    x ∈ matched glob bare candidates ↔
      x ∈ candidates ∧ ∃ p ∈ bare, (glob p).accepts x = true := by
  simp only [matched, List.mem_flatMap, List.mem_filter]
  constructor
  · intro ⟨p, hp, hx, haccepts⟩
    exact ⟨hx, p, hp, haccepts⟩
  · intro ⟨hx, p, hp, haccepts⟩
    exact ⟨p, hp, hx, haccepts⟩

/-- What some pattern accepts is listed at least as often as it is a candidate. -/
theorem count_matched {x : List Char} (h : x ∈ matched glob bare candidates) :
    candidates.count x ≤ (matched glob bare candidates).count x := by
  obtain ⟨-, p, hp, haccepts⟩ := mem_matched.mp h
  obtain ⟨before, after, rfl⟩ := List.append_of_mem hp
  rw [matched, List.flatMap_append, List.flatMap_cons, List.count_append, List.count_append,
    List.count_filter haccepts]
  omega

/-- **Taking out** all that is accepted leaves what is not. -/
theorem diff_matched :
    candidates.diff (matched glob bare candidates) = unmatched glob bare candidates := by
  rw [diff_eq_filter fun x hx => count_matched hx]
  refine List.filter_congr fun c hc => ?_
  rw [Bool.eq_iff_iff]
  simp [mem_matched, hc]

/-- Going through negated patterns lists what they match without their exclamation mark. -/
theorem select_negated (hnegates : MatchOptions.negates options = true)
    (hsingle : ∀ p ∈ bare, p.head? ≠ some '!')
    (hcompile : ∀ p ∈ bare, (m.makeRegex p options none).2 = .ok (glob p)) :
    (Matcher.select candidates options m {} (bare.map ('!' :: ·))).2 =
      .ok { omitted := matched glob bare candidates } := by
  have hfound : ∀ p ∈ bare.map ('!' :: ·),
      (m.matchOne candidates (negation options p).2 options).2 =
        .ok (candidates.filter (glob p.tail).accepts) := by
    intro q hq
    obtain ⟨p, hp, rfl⟩ := List.mem_map.mp hq
    rw [negation_negated hnegates]
    exact matchOne_of_makeRegex (hsingle p hp) (hcompile p hp)
  rw [select_snd hfound]
  simp [negation_negated hnegates, matched, List.filter_map, List.flatMap_map,
    Function.comp_def]

/-- What is selected when nothing but negated patterns has been gone through. -/
theorem result_matched :
    ({ omitted := matched glob bare candidates } : Selection).result candidates =
      if matched glob bare candidates = [] then [] else unmatched glob bare candidates := by
  rw [Selection.result, ← List.diff_eq_foldl, if_neg Bool.false_ne_true, diff_matched]

theorem unmatched_of_matched_eq_nil (h : matched glob bare candidates = []) :
    unmatched glob bare candidates = candidates := by
  rw [← diff_matched, h, List.diff_nil]

theorem matched_eq_nil : matched glob bare candidates = [] ↔
    ¬ ∃ p ∈ bare, ∃ c ∈ candidates, (glob p).accepts c = true := by
  rw [List.eq_nil_iff_forall_not_mem]
  constructor
  · intro hno ⟨p, hp, c, hc, haccepts⟩
    exact hno c (mem_matched.mpr ⟨hc, p, hp, haccepts⟩)
  · intro hno c hmem
    obtain ⟨hc, p, hp, haccepts⟩ := mem_matched.mp hmem
    exact hno ⟨p, hp, c, hc, haccepts⟩

/-- The answer for negated patterns alone. -/
theorem matchAll_negated_snd (hnegates : MatchOptions.negates options = true) (hbare : bare ≠ [])
    (hsingle : ∀ p ∈ bare, p.head? ≠ some '!')
    (hcompile : ∀ p ∈ bare, (m.makeRegex p options none).2 = .ok (glob p)) :
    (m.matchAll candidates (bare.map ('!' :: ·)) options).2 =
      .ok (if 1 < bare.length ∧ matched glob bare candidates = [] then []
        else unmatched glob bare candidates) := by
  by_cases hnone : candidates = []
  · have hall : unmatched glob bare candidates = [] := by
      rw [hnone]
      rfl
    unfold matchAll
    rw [if_pos (.inl hnone), hall, ite_self]
  · obtain ⟨p, rest, rfl⟩ := List.exists_cons_of_ne_nil hbare
    cases rest with
    | nil =>
      have hone : ¬ (1 < [p].length ∧ matched glob [p] candidates = []) := by simp
      have hpatterns : ¬ (candidates = [] ∨ [p].map ('!' :: ·) = []) := by simp [hnone]
      rw [if_neg hone]
      unfold matchAll
      rw [if_neg hpatterns]
      refine (matchOne_of_negated hnegates (hcompile p List.mem_cons_self)).trans ?_
      simp [unmatched]
    | cons q rest =>
      have hmore : 1 < ((p :: q :: rest).map ('!' :: ·)).length := by simp
      rw [matchAll_snd hnone hmore, select_negated hnegates hsingle hcompile, Except.map,
        result_matched]
      simp

/-- **Negated patterns alone** leave the candidates that none of them matches if there is one
    pattern, or one of several matches a candidate. Otherwise nothing is selected, though no
    candidate is matched. So the answer is what is not matched exactly if there is one pattern, or
    no candidate, or one that is matched. -/
theorem matchAll_of_all_negated (hnegates : MatchOptions.negates options = true)
    (hbare : bare ≠ []) (hsingle : ∀ p ∈ bare, p.head? ≠ some '!')
    (hcompile : ∀ p ∈ bare, (m.makeRegex p options none).2 = .ok (glob p)) :
    (m.matchAll candidates (bare.map ('!' :: ·)) options).2 =
        .ok (if 1 < bare.length ∧ matched glob bare candidates = [] then []
          else unmatched glob bare candidates) ∧
      ((m.matchAll candidates (bare.map ('!' :: ·)) options).2 =
          .ok (unmatched glob bare candidates) ↔
        bare.length = 1 ∨ candidates = [] ∨
          ∃ p ∈ bare, ∃ c ∈ candidates, (glob p).accepts c = true) := by
  have hanswer :=
    @matchAll_negated_snd m candidates bare options glob hnegates hbare hsingle hcompile
  have hpositive : 0 < bare.length := List.length_pos_iff.mpr hbare
  refine ⟨hanswer, ?_⟩
  rw [hanswer]
  by_cases hcase : 1 < bare.length ∧ matched glob bare candidates = []
  · obtain ⟨hlength, hmatched⟩ := hcase
    have hno := matched_eq_nil.mp hmatched
    rw [if_pos ⟨hlength, hmatched⟩, unmatched_of_matched_eq_nil hmatched, Except.ok.injEq, eq_comm]
    constructor
    · intro hnone
      exact .inr (.inl hnone)
    · intro hright
      rcases hright with hone | hnone | hhit
      · omega
      · exact hnone
      · exact absurd hhit hno
  · rw [if_neg hcase]
    refine iff_of_true rfl ?_
    rcases Nat.lt_or_ge 1 bare.length with hlength | hlength
    · refine .inr (.inr ?_)
      exact Classical.not_not.mp (mt matched_eq_nil.mpr (not_and.mp hcase hlength))
    · exact .inl (by omega)

/-- The first of two negated patterns matches a candidate that stands there twice. -/
theorem matchAll_of_all_negated_twice :
    (({} : Matcher).matchAll ["a".toList, "b".toList, "a".toList]
      (["a".toList, "[cd]".toList].map ('!' :: ·)) none).2 = .ok ["b".toList] := by
  let glob (p : List Char) : CompiledGlob :=
    (({} : Matcher).makeRegex p none none).2.toOption.getD (globOfRegex p anything)
  have hcompile : ∀ p ∈ ["a".toList, "[cd]".toList],
      (({} : Matcher).makeRegex p none none).2 = .ok (glob p) := by
    rw [List.forall_mem_cons, List.forall_mem_singleton]
    exact ⟨rfl, rfl⟩
  have hanswer := (@matchAll_of_all_negated {} ["a".toList, "b".toList, "a".toList] _ none glob
    rfl (by simp) (by decide) hcompile).1
  refine hanswer.trans ?_
  decide +kernel

/-- Two negated patterns that match no candidate leave none, and not the one there is. -/
theorem matchAll_all_negated_no_hit :
    (({} : Matcher).matchAll [['c']] ["!a".toList, "!b".toList] none).2 = .ok [] ∧
      (({} : Matcher).accepts ['c'] ['a'] none none).2 = .ok false ∧
        (({} : Matcher).accepts ['c'] ['b'] none none).2 = .ok false := by
  refine ⟨?_, ?_, ?_⟩
  · rfl
  · rfl
  · rfl

end Negated

end Matcher

end Wildcard
