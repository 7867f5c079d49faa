import Wildcard.Proofs.Selection

/-!
# Positive patterns less negated ones

Where some pattern is not negated, what the negated ones list is taken out of what the others list,
one occurrence after the other. The order in which this is done does not matter: of each text as
many occurrences are taken out as are listed, the first ones, and nothing else is moved.

* `diff_eq_withoutFirst`: taking out one by one is subtraction by counts.
* `matchAll_of_positive`: what is selected in terms of the answers for the single patterns, and that
  the negated patterns may stand in any order and in any places.
-/

namespace Wildcard

/-! ## 1. A list less its first occurrences -/

section Occurrences

variable {α : Type} [BEq α]

/-- A list less the first `n x` occurrences of each `x`: an item stays if at least as many equal
    ones stand before it. -/
def withoutFirst (n : α → Nat) (xs : List α) : List α :=
  (xs.zipIdx.filter fun (x, i) => n x ≤ (xs.take i).count x).map Prod.fst

/-- What stands in front counts as one of the first occurrences. -/
theorem withoutFirst_cons (n : α → Nat) (x : α) (rest : List α) :
    withoutFirst n (x :: rest) =
      (if n x = 0 then [x] else []) ++ withoutFirst (fun y => n y - [x].count y) rest := by
  have hshift : rest.zipIdx 1 = rest.zipIdx.map fun (y, i) => (y, i + 1) := List.zipIdx_succ ..
  have hlater : (rest.zipIdx 1).filter (fun (y, i) => n y ≤ ((x :: rest).take i).count y) =
      (rest.zipIdx.filter fun (y, i) => n y - [x].count y ≤ (rest.take i).count y).map
        fun (y, i) => (y, i + 1) := by
    rw [hshift, List.filter_map]
    refine congrArg _ (List.filter_congr fun e _ => decide_eq_decide.mpr ?_)
    have hcount : ((x :: rest).take (e.2 + 1)).count e.1 =
        [x].count e.1 + (rest.take e.2).count e.1 := by
      rw [List.take_succ_cons, List.count_cons, List.count_singleton, Nat.add_comm]
    rw [hcount]
    omega
  unfold withoutFirst
  rw [List.zipIdx_cons, List.filter_cons, Nat.zero_add, hlater]
  simp only [List.take_zero, List.count_nil, Nat.le_zero, decide_eq_true_eq]
  split <;> simp [Function.comp_def]

variable [LawfulBEq α]

/-- **Taking out one by one** takes out the first occurrences of each item, as many as are
    listed. -/
theorem diff_eq_withoutFirst (xs omitted : List α) :
    xs.diff omitted = withoutFirst (fun x => omitted.count x) xs := by
  induction xs generalizing omitted with
  | nil => exact List.nil_diff omitted
  | cons x rest ih =>
    rw [List.cons_diff, withoutFirst_cons]
    by_cases hx : x ∈ omitted
    · have hcount : omitted.count x ≠ 0 := Nat.ne_of_gt (List.count_pos_iff.mpr hx)
      have herase : (fun y => (omitted.erase x).count y) =
          fun y => omitted.count y - [x].count y := by
        funext y
        rw [List.count_erase, List.count_singleton]
      rw [if_pos hx, if_neg hcount, ih, herase, List.nil_append]
    · have hcount : omitted.count x = 0 := List.count_eq_zero.mpr hx
      have hsame : (fun y => omitted.count y) = fun y => omitted.count y - [x].count y := by
        funext y
        by_cases hyx : x = y
        · rw [← hyx, hcount, Nat.zero_sub]
        · rw [List.count_singleton, if_neg (by simpa using hyx), Nat.sub_zero]
      rw [if_neg hx, if_pos hcount, ih, ← hsame, List.singleton_append]

/-- No more occurrences are taken out than there are. -/
theorem withoutFirst_min (n : α → Nat) (xs : List α) :
    withoutFirst (fun x => min (n x) (xs.count x)) xs = withoutFirst n xs := by
  unfold withoutFirst
  refine congrArg _ (List.filter_congr fun e he => decide_eq_decide.mpr ?_)
  -- the item itself is not among those before it
  have hbefore : (xs.take e.2).count e.1 < xs.count e.1 := by
    obtain ⟨hlt, heq⟩ := List.getElem?_eq_some_iff.mp (List.mem_zipIdx_iff_getElem?.mp he)
    conv_rhs => rw [← List.take_append_drop e.2 xs, List.drop_eq_getElem_cons hlt, heq]
    rw [List.count_append, List.count_cons_self]
    omega
  simp only
  omega

end Occurrences

namespace Matcher

/-! ## 2. Some pattern is not negated -/

/-- The patterns that are not negated. -/
def positives (options : Option MatchOptions) (patterns : List (List Char)) : List (List Char) :=
  patterns.filter fun p => !(negation options p).1

/-- The negated patterns. -/
def negatives (options : Option MatchOptions) (patterns : List (List Char)) : List (List Char) :=
  patterns.filter fun p => (negation options p).1

section Positive

variable {m : Matcher} {options : Option MatchOptions} {candidates patterns : List (List Char)}
  {found : List Char → List (List Char)}

/-- What is selected once all patterns have been gone through. -/
theorem result_of_positive (kept omitted candidates : List (List Char)) :
    ({ kept, omitted, positive := true } : Selection).result candidates =
      withoutFirst (fun x => min (omitted.count x) (kept.count x)) kept := by
  rw [withoutFirst_min, ← diff_eq_withoutFirst, Selection.result, ← List.diff_eq_foldl]
  simp only [if_true]
  split
  · rename_i hnone
    rw [hnone, List.diff_nil]
  · rfl

/-- Without candidates nothing is found. -/
theorem found_eq_nil {pattern : List Char} {answer : List (List Char)}
    (h : (m.matchOne [] pattern options).2 = .ok answer) : answer = [] := by
  rw [matchOne_snd] at h
  cases hregex : m.regexFor (negation options pattern).2 options with
  | error e =>
    rw [hregex] at h
    cases h
  | ok r =>
    rw [hregex] at h
    cases h
    rfl

/-- The answer for several patterns of which some are not negated. -/
theorem matchAll_positive_snd (hmore : 1 < patterns.length)
    (hpositive : positives options patterns ≠ [])
    (hfound : ∀ p ∈ patterns, (m.matchOne candidates (negation options p).2 options).2 =
      .ok (found p)) :
    (m.matchAll candidates patterns options).2 =
      .ok (withoutFirst (fun x => min (((negatives options patterns).flatMap found).count x)
        (((positives options patterns).flatMap found).count x))
        ((positives options patterns).flatMap found)) := by
  by_cases hnone : candidates = []
  · have hkept : (positives options patterns).flatMap found = [] := by
      refine List.flatMap_eq_nil_iff.mpr fun p hp => ?_
      have hanswer := hfound p (List.mem_of_mem_filter hp)
      rw [hnone] at hanswer
      exact found_eq_nil hanswer
    unfold matchAll
    rw [if_pos (.inl hnone), hkept]
    rfl
  · have hany : (patterns.any fun p => !(negation options p).1) = true := by
      obtain ⟨p, hp⟩ := List.exists_mem_of_ne_nil _ hpositive
      obtain ⟨hmem, hnegated⟩ := List.mem_filter.mp hp
      exact List.any_eq_true.mpr ⟨p, hmem, hnegated⟩
    rw [matchAll_snd hnone hmore, select_snd hfound, hany, Except.map]
    exact congrArg _ (result_of_positive _ _ candidates)

/-- **Several patterns of which some are not negated** select what those list, one after the other,
    less the first occurrences of each text, as many as the negated ones list. So the answer depends
    on the order of the positive patterns alone: the negated ones may stand in any order and in any
    places. -/
theorem matchAll_of_positive (hmore : 1 < patterns.length)
    (hpositive : ∃ p ∈ patterns, (negation options p).1 = false)
    (hfound : ∀ p ∈ patterns, (m.matchOne candidates (negation options p).2 options).2 =
      .ok (found p)) :
    (m.matchAll candidates patterns options).2 =
        .ok (withoutFirst (fun x => min (((negatives options patterns).flatMap found).count x)
          (((positives options patterns).flatMap found).count x))
          ((positives options patterns).flatMap found)) ∧
      ∀ others, positives options others = positives options patterns →
        (negatives options others).Perm (negatives options patterns) →
          (m.matchAll candidates others options).2 =
            (m.matchAll candidates patterns options).2 := by
  have hsome : positives options patterns ≠ [] := by
    obtain ⟨p, hp, hnegated⟩ := hpositive
    refine List.ne_nil_of_mem (List.mem_filter.mpr ⟨hp, ?_⟩)
    rw [hnegated]
    rfl
  refine ⟨matchAll_positive_snd hmore hsome hfound, fun others hkept homitted => ?_⟩
  -- the other list holds the same patterns
  have hsame : others.Perm patterns := by
    have hsplit (ps : List (List Char)) :
        (negatives options ps ++ positives options ps).Perm ps :=
      List.filter_append_perm _ ps
    have hothers := hsplit others
    rw [hkept] at hothers
    exact hothers.symm.trans ((homitted.append_right _).trans (hsplit patterns))
  have hfound' : ∀ p ∈ others, (m.matchOne candidates (negation options p).2 options).2 =
      .ok (found p) := fun p hp => hfound p (hsame.mem_iff.mp hp)
  have hcounts : ∀ x, ((negatives options others).flatMap found).count x =
      ((negatives options patterns).flatMap found).count x := fun x =>
    (homitted.flatMap_right found).count_eq x
  rw [matchAll_positive_snd hmore hsome hfound,
    matchAll_positive_snd (hsame.length_eq ▸ hmore) (hkept ▸ hsome) hfound', hkept]
  simp only [hcounts]

/-- Two negated patterns among the others, and texts that are listed more often than taken out. -/
theorem matchAll_of_positive_repeated :
    (({} : Matcher).matchAll ["a".toList, "b".toList, "a".toList]
        ["a".toList, "!a".toList, "*".toList, "![bc]".toList] none).2 =
      .ok ["a".toList, "a".toList] ∧
    (({} : Matcher).matchAll ["a".toList, "b".toList, "a".toList]
        ["![bc]".toList, "a".toList, "*".toList, "!a".toList] none).2 =
      .ok ["a".toList, "a".toList] := by
  let found (p : List Char) : List (List Char) :=
    (({} : Matcher).matchOne ["a".toList, "b".toList, "a".toList] (negation none p).2
      none).2.toOption.getD []
  have hfound : ∀ p ∈ ["a".toList, "!a".toList, "*".toList, "![bc]".toList],
      (({} : Matcher).matchOne ["a".toList, "b".toList, "a".toList] (negation none p).2 none).2 =
        .ok (found p) := by
    simp only [List.forall_mem_cons, List.not_mem_nil, false_imp_iff, implies_true, and_true]
    exact ⟨rfl, rfl, rfl, rfl⟩
  obtain ⟨hanswer, hmoved⟩ := matchAll_of_positive (by decide) ⟨_, List.mem_cons_self, rfl⟩ hfound
  have hselected := hanswer.trans (by decide +kernel : _ = .ok ["a".toList, "a".toList])
  refine ⟨hselected, (hmoved _ rfl ?_).trans hselected⟩
  decide

end Positive

end Matcher

end Wildcard
