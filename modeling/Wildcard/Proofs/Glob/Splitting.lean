import Mathlib.Data.List.Chain
import Wildcard.Proofs.Glob.WellNested
import Wildcard.Proofs.Path

/-!
# Splitting a text at its separators

The segments of a text are found by walking over it and counting how many groups are open; the walk
knows only the places of the delimiters. What it counts is right because no delimiter is escaped, and
so none is passed over: at every place the count is the number of pairs around it.

* `walk`: the walk with its states on record; `walk_fst`: its spans are those of `segmentSpansFrom`.
* `Walk.At`: what holds of the state at a place, and `Walk.at_step`: each step keeps it.
* `CutAt`: spans that end at the separators and nowhere else.
* `segmentSpans_pairsOf`: what is true of the spans and of the count in every text.
-/

namespace Wildcard.Glob

open Wildcard.Bracket (endBackslashes)

/-! ## 1. How many groups are open -/

/-- Pairs of delimiters in a text: they stand in it, and no place is that of two delimiters. -/
structure Delimiters (cs : List Char) (pairs : List (Nat × Nat)) : Prop where
  inside : ∀ p ∈ pairs, p.1 < p.2 ∧ p.2 < cs.length
  stands : ∀ p ∈ pairs, ∃ kind, Stands cs kind p
  distinct : (pairs.flatMap fun p => [p.1, p.2]).Nodup

theorem delimiters_pairsOf (cs : List Char) : Delimiters cs (pairsOf cs) where
  inside _ hp := pairs_inside hp
  stands _ hp := (exists_tagged hp).imp fun _ => stands_of_tagged
  distinct := nodup_places 0 (read cs)

/-- How many pairs are open at a place: their openers stand in front of it, their closers do not. -/
def openAt (pairs : List (Nat × Nat)) (i : Nat) : Nat :=
  pairs.countP fun p => p.1 < i ∧ i ≤ p.2

theorem openAt_eq_zero {pairs : List (Nat × Nat)} {i : Nat} :
    openAt pairs i = 0 ↔ ∀ p ∈ pairs, ¬ (p.1 < i ∧ i ≤ p.2) := by
  simp [openAt, List.countP_eq_zero]

/-- An opener adds one to the pairs that are open behind it, and a closer takes one away. -/
theorem openAt_succ {pairs : List (Nat × Nat)} (h : ∀ p ∈ pairs, p.1 < p.2) (i : Nat) :
    openAt pairs (i + 1) + pairs.countP (·.2 == i) =
      openAt pairs i + pairs.countP (·.1 == i) := by
  induction pairs with
  | nil => rfl
  | cons p pairs ih =>
    obtain ⟨hp, hpairs⟩ := List.forall_mem_cons.mp h
    have hrest := ih hpairs
    unfold openAt at hrest ⊢
    simp only [List.countP_cons, decide_eq_true_eq, beq_iff_eq]
    split <;> split <;> split <;> split <;> omega

theorem count_places (pairs : List (Nat × Nat)) (i : Nat) :
    (pairs.flatMap fun p => [p.1, p.2]).count i =
      pairs.countP (·.1 == i) + pairs.countP (·.2 == i) := by
  induction pairs with
  | nil => rfl
  | cons p pairs ih =>
    rw [List.flatMap_cons, List.count_append, ih]
    simp only [List.count_cons, List.count_nil, List.countP_cons]
    omega

section Counting

variable {cs : List Char} {pairs : List (Nat × Nat)} {i : Nat}

theorem countP_of_any {f : Nat × Nat → Bool} (h : pairs.any f = true) : 0 < pairs.countP f := by
  obtain ⟨p, hp, hf⟩ := List.any_eq_true.mp h
  exact List.countP_pos_iff.mpr ⟨p, hp, hf⟩

theorem countP_of_not_any {f : Nat × Nat → Bool} (h : ¬ pairs.any f = true) :
    pairs.countP f = 0 :=
  List.countP_eq_zero.mpr fun p hp hf => h (List.any_eq_true.mpr ⟨p, hp, hf⟩)

theorem Delimiters.openAt_opener (h : Delimiters cs pairs) (hopener : pairs.any (·.1 == i) = true) :
    openAt pairs (i + 1) = openAt pairs i + 1 := by
  have hsucc := openAt_succ (fun p hp => (h.inside p hp).1) i
  have hcount := count_places pairs i
  have honce := List.nodup_iff_count_le_one.mp h.distinct i
  have hpos := countP_of_any hopener
  omega

theorem Delimiters.openAt_closer (h : Delimiters cs pairs)
    (hopener : ¬ pairs.any (·.1 == i) = true) (hcloser : pairs.any (·.2 == i) = true) :
    openAt pairs (i + 1) + 1 = openAt pairs i := by
  have hsucc := openAt_succ (fun p hp => (h.inside p hp).1) i
  have hcount := count_places pairs i
  have honce := List.nodup_iff_count_le_one.mp h.distinct i
  have hzero := countP_of_not_any hopener
  have hpos := countP_of_any hcloser
  omega

theorem Delimiters.openAt_other (h : Delimiters cs pairs)
    (hopener : ¬ pairs.any (·.1 == i) = true) (hcloser : ¬ pairs.any (·.2 == i) = true) :
    openAt pairs (i + 1) = openAt pairs i := by
  have hsucc := openAt_succ (fun p hp => (h.inside p hp).1) i
  rw [countP_of_not_any hopener, countP_of_not_any hcloser] at hsucc
  exact hsucc

/-- Nothing is open at the end of the text. -/
theorem Delimiters.openAt_length (h : Delimiters cs pairs) : openAt pairs cs.length = 0 :=
  openAt_eq_zero.mpr fun p hp hopen => Nat.not_le.mpr (h.inside p hp).2 hopen.2

/-- What stands at the place of a delimiter. -/
theorem Delimiters.at_place (h : Delimiters cs pairs) {p : Nat × Nat} (hp : p ∈ pairs)
    (hi : p.1 = i ∨ p.2 = i) :
    cs[i]? ≠ some '\\' ∧ cs[i]? ≠ some '/' ∧ endBackslashes (cs.take i) % 2 = 0 := by
  obtain ⟨kind, hstands⟩ := h.stands p hp
  rcases hi with rfl | rfl
  · rw [hstands.opener]
    refine ⟨?_, ?_, hstands.openerEven⟩ <;> rcases kind with - | - | - <;> decide
  · rw [hstands.closer]
    refine ⟨?_, ?_, hstands.closerEven⟩ <;> rcases kind with - | - | - <;> decide

/-- No delimiter stands where what stands there is a backslash, or is escaped. -/
theorem Delimiters.not_any (h : Delimiters cs pairs)
    (hi : cs[i]? = some '\\' ∨ endBackslashes (cs.take i) % 2 = 1) :
    ¬ pairs.any (·.1 == i) = true ∧ ¬ pairs.any (·.2 == i) = true := by
  have hplace {p : Nat × Nat} (hp : p ∈ pairs) (hpi : p.1 = i ∨ p.2 = i) : False := by
    obtain ⟨hback, -, heven⟩ := h.at_place hp hpi
    rcases hi with hi | hi
    · exact hback hi
    · omega
  refine ⟨fun hany => ?_, fun hany => ?_⟩
  · obtain ⟨p, hp, hpi⟩ := List.any_eq_true.mp hany
    exact hplace hp (.inl (beq_iff_eq.mp hpi))
  · obtain ⟨p, hp, hpi⟩ := List.any_eq_true.mp hany
    exact hplace hp (.inr (beq_iff_eq.mp hpi))

end Counting

/-! ## 2. The walk -/

/-- One step of the walk: the span that ends there, if one does, whether the next character is
    passed over, and the state behind the step. -/
def Walk.step (pairs : List (Nat × Nat)) (passed : Bool) (w : Walk) (i : Nat) (c : Char) :
    List (Nat × Nat) × Bool × Walk :=
  if passed then ([], false, w)
  else if c = '\\' then ([], true, w)
  else if pairs.any (·.1 == i) then ([], false, { w with depth := w.depth + 1 })
  else if pairs.any (·.2 == i) then ([], false, { w with depth := w.depth - 1 })
  else if c = '/' ∧ w.depth = 0 then ([(w.start, i)], false, { w with start := i + 1 })
  else ([], false, w)

/-- The spans that the walk finds, and the states that it comes through. -/
def walk (pairs : List (Nat × Nat)) :
    Bool → Walk → Nat → List Char → List (Nat × Nat) × List Walk
  | _, w, i, [] => ([(w.start, i)], [w])
  | passed, w, i, c :: rest =>
    let next := Walk.step pairs passed w i c
    let later := walk pairs next.2.1 next.2.2 (i + 1) rest
    (next.1 ++ later.1, w :: later.2)

/-- Finding the spans is walking step by step. -/
theorem segmentSpansFrom_cons (pairs : List (Nat × Nat)) (passed : Bool) (w : Walk) (i : Nat)
    (c : Char) (rest : List Char) :
    segmentSpansFrom pairs passed w i (c :: rest) = (Walk.step pairs passed w i c).1 ++
      segmentSpansFrom pairs (Walk.step pairs passed w i c).2.1 (Walk.step pairs passed w i c).2.2
        (i + 1) rest := by
  cases passed with
  | true => rfl
  | false =>
    rw [segmentSpansFrom, Walk.step, if_neg Bool.false_ne_true]
    split_ifs <;> rfl

/-- The spans of the walk are those that are found without a record of its states. -/
theorem walk_fst (pairs : List (Nat × Nat)) (passed : Bool) (w : Walk) (i : Nat)
    (cs : List Char) : (walk pairs passed w i cs).1 = segmentSpansFrom pairs passed w i cs := by
  induction cs generalizing passed w i with
  | nil => cases passed <;> rfl
  | cons c rest ih => rw [walk, segmentSpansFrom_cons, ih]

/-- A separator that divides segments: it is not escaped, and no pair is around it. -/
def Separates (cs : List Char) (pairs : List (Nat × Nat)) (i : Nat) : Prop :=
  cs[i]? = some '/' ∧ endBackslashes (cs.take i) % 2 = 0 ∧
    ∀ p ∈ pairs, ¬ (p.1 < i ∧ i < p.2)

/-- What holds of the state of the walk at a place. -/
structure Walk.At (cs : List Char) (pairs : List (Nat × Nat)) (i : Nat) (passed : Bool)
    (w : Walk) : Prop where
  flag : endBackslashes (cs.take i) % 2 = passed.toNat
  depth : w.depth = openAt pairs i
  start : w.start ≤ i
  whole : ∀ j, w.start ≤ j → j < i → ¬ Separates cs pairs j

section Steps

variable {cs : List Char} {pairs : List (Nat × Nat)} {i : Nat} {passed : Bool} {w : Walk} {c : Char}

theorem endBackslashes_take_succ (hc : cs[i]? = some c) :
    endBackslashes (cs.take (i + 1)) =
      if c = '\\' then endBackslashes (cs.take i) + 1 else 0 := by
  obtain ⟨hi, hget⟩ := List.getElem?_eq_some_iff.mp hc
  rw [List.take_succ_eq_append_getElem hi, hget]
  split
  · rename_i hback
    rw [hback, Bracket.endBackslashes_backslash]
  · rename_i hback
    exact Bracket.endBackslashes_other hback _

theorem not_separates_of_delimiter (hd : Delimiters cs pairs) {p : Nat × Nat} (hp : p ∈ pairs)
    (hi : p.1 = i ∨ p.2 = i) : ¬ Separates cs pairs i :=
  fun h => (hd.at_place hp hi).2.1 h.1

/-- Where no delimiter stands and nothing is escaped, a separator divides segments exactly if nothing
    is open. -/
theorem separates_iff (hc : cs[i]? = some c) (heven : endBackslashes (cs.take i) % 2 = 0)
    (hcloser : ¬ pairs.any (·.2 == i) = true) :
    Separates cs pairs i ↔ c = '/' ∧ openAt pairs i = 0 := by
  have hne : ∀ p ∈ pairs, p.2 ≠ i := fun p hp heq =>
    hcloser (List.any_eq_true.mpr ⟨p, hp, beq_iff_eq.mpr heq⟩)
  rw [openAt_eq_zero, Separates, hc, Option.some.injEq]
  constructor
  · rintro ⟨hsep, -, haround⟩
    refine ⟨hsep, fun p hp hopen => haround p hp ?_⟩
    have := hne p hp
    omega
  · rintro ⟨hsep, hclosed⟩
    refine ⟨hsep, heven, fun p hp haround => hclosed p hp ?_⟩
    omega

/-- **A step of the walk** keeps what holds of its state. A span ends there exactly if a separator
    divides segments there, and the next one begins behind it. -/
theorem Walk.at_step (hd : Delimiters cs pairs) (h : Walk.At cs pairs i passed w)
    (hc : cs[i]? = some c) :
    Walk.At cs pairs (i + 1) (Walk.step pairs passed w i c).2.1 (Walk.step pairs passed w i c).2.2 ∧
      ((Walk.step pairs passed w i c).1 = [] ∧ (Walk.step pairs passed w i c).2.2.start = w.start ∨
        (Walk.step pairs passed w i c).1 = [(w.start, i)] ∧ Separates cs pairs i ∧
          (Walk.step pairs passed w i c).2.2.start = i + 1) := by
  have hflag := h.flag
  have htake := endBackslashes_take_succ hc
  -- where nothing is divided, the segment goes on
  have hwhole (hno : ¬ Separates cs pairs i) : ∀ j, w.start ≤ j → j < i + 1 → ¬ Separates cs pairs j := by
    intro j hstart hj
    rcases Nat.lt_or_eq_of_le (Nat.le_of_lt_succ hj) with hj | rfl
    · exact h.whole j hstart hj
    · exact hno
  have hstart : w.start ≤ i + 1 := Nat.le_succ_of_le h.start
  unfold Walk.step
  cases passed with
  | true =>
    obtain ⟨hopener, hcloser⟩ := hd.not_any (.inr hflag)
    have hno : ¬ Separates cs pairs i := fun hsep => by
      have heven := hsep.2.1
      rw [hflag] at heven
      exact absurd heven (by decide)
    refine ⟨⟨?_, ?_, hstart, hwhole hno⟩, .inl ⟨rfl, rfl⟩⟩
    · show endBackslashes (cs.take (i + 1)) % 2 = 0
      change endBackslashes (cs.take i) % 2 = 1 at hflag
      rw [htake]
      split <;> omega
    · show w.depth = _
      rw [hd.openAt_other hopener hcloser, h.depth]
  | false =>
    change endBackslashes (cs.take i) % 2 = 0 at hflag
    rw [if_neg Bool.false_ne_true]
    by_cases hback : c = '\\'
    · obtain ⟨hopener, hcloser⟩ := hd.not_any (.inl (by rw [hc, hback]))
      have hno : ¬ Separates cs pairs i := fun hsep => by
        have hslash := hsep.1
        rw [hc, hback] at hslash
        exact absurd hslash (by decide)
      rw [if_pos hback] at htake ⊢
      refine ⟨⟨?_, ?_, hstart, hwhole hno⟩, .inl ⟨rfl, rfl⟩⟩
      · show endBackslashes (cs.take (i + 1)) % 2 = 1
        omega
      · show w.depth = _
        rw [hd.openAt_other hopener hcloser, h.depth]
    · rw [if_neg hback] at htake ⊢
      have heven : endBackslashes (cs.take (i + 1)) % 2 = 0 := by rw [htake]
      by_cases hopener : pairs.any (·.1 == i) = true
      · obtain ⟨p, hp, hpi⟩ := List.any_eq_true.mp hopener
        have hno := not_separates_of_delimiter hd hp (.inl (beq_iff_eq.mp hpi))
        rw [if_pos hopener]
        refine ⟨⟨heven, ?_, hstart, hwhole hno⟩, .inl ⟨rfl, rfl⟩⟩
        show w.depth + 1 = _
        rw [hd.openAt_opener hopener, h.depth]
        rfl
      · rw [if_neg hopener]
        by_cases hcloser : pairs.any (·.2 == i) = true
        · obtain ⟨p, hp, hpi⟩ := List.any_eq_true.mp hcloser
          have hno := not_separates_of_delimiter hd hp (.inr (beq_iff_eq.mp hpi))
          rw [if_pos hcloser]
          refine ⟨⟨heven, ?_, hstart, hwhole hno⟩, .inl ⟨rfl, rfl⟩⟩
          show w.depth - 1 = _
          rw [h.depth, ← hd.openAt_closer hopener hcloser]
          omega
        · rw [if_neg hcloser]
          have hdepth : w.depth = openAt pairs (i + 1) := by
            rw [hd.openAt_other hopener hcloser, h.depth]
          have hsep : Separates cs pairs i ↔ c = '/' ∧ w.depth = 0 := by
            rw [separates_iff hc hflag hcloser, h.depth, Int.natCast_eq_zero]
          by_cases hslash : c = '/' ∧ w.depth = 0
          · rw [if_pos hslash]
            refine ⟨⟨heven, hdepth, Nat.le_refl _, ?_⟩, .inr ⟨rfl, hsep.mpr hslash, rfl⟩⟩
            intro j hj hj'
            exact absurd (Nat.lt_of_lt_of_le hj' hj) (Nat.lt_irrefl _)
          · rw [if_neg hslash]
            have hno : ¬ Separates cs pairs i := fun h => hslash (hsep.mp h)
            exact ⟨⟨heven, hdepth, hstart, hwhole hno⟩, .inl ⟨rfl, rfl⟩⟩

end Steps

/-! ## 3. Spans that are cut at places -/

/-- Spans from a start to the end, one behind the other: each but the last ends at a place of the
    given kind, the next one begins behind that place, and no other place in them is of the kind. -/
inductive CutAt (divides : Nat → Prop) (stop : Nat) : Nat → List (Nat × Nat) → Prop
  | last {start : Nat} : start ≤ stop → (∀ i, start ≤ i → i < stop → ¬ divides i) →
      CutAt divides stop start [(start, stop)]
  | cut {start i : Nat} {spans : List (Nat × Nat)} : start ≤ i → i < stop → divides i →
      (∀ j, start ≤ j → j < i → ¬ divides j) → CutAt divides stop (i + 1) spans →
        CutAt divides stop start ((start, i) :: spans)

/-- **The whole walk**: its spans are cut at the separators that divide segments, what it counts is
    never negative, and it counts nothing at the end. -/
theorem walk_spec {cs : List Char} {pairs : List (Nat × Nat)} (hd : Delimiters cs pairs)
    {rest : List Char} {i : Nat} {passed : Bool} {w : Walk} (hrest : cs.drop i = rest)
    (hi : i ≤ cs.length) (h : Walk.At cs pairs i passed w) :
    CutAt (Separates cs pairs) cs.length w.start (walk pairs passed w i rest).1 ∧
      (∀ w' ∈ (walk pairs passed w i rest).2, 0 ≤ w'.depth) ∧
      (walk pairs passed w i rest).2.getLast?.map (·.depth) = some 0 := by
  have hdepth : 0 ≤ w.depth := by rw [h.depth]; exact Int.natCast_nonneg _
  induction rest generalizing i passed w with
  | nil =>
    have hend : i = cs.length := Nat.le_antisymm hi (List.drop_eq_nil_iff.mp hrest)
    subst hend
    refine ⟨.last h.start h.whole, List.forall_mem_singleton.mpr hdepth, ?_⟩
    show some w.depth = some 0
    rw [h.depth, hd.openAt_length]
    rfl
  | cons c rest ih =>
    have hc : cs[i]? = some c := by rw [← List.head?_drop, hrest]; rfl
    have hlt : i < cs.length := (List.getElem?_eq_some_iff.mp hc).1
    have hnext : cs.drop (i + 1) = rest := by rw [← List.tail_drop, hrest]; rfl
    obtain ⟨hat, hspan⟩ := Walk.at_step hd h hc
    have hdepth' : 0 ≤ (Walk.step pairs passed w i c).2.2.depth := by
      rw [hat.depth]
      exact Int.natCast_nonneg _
    obtain ⟨hcut, hnonneg, hlast⟩ := ih hnext hlt hat hdepth'
    rw [walk]
    refine ⟨?_, List.forall_mem_cons.mpr ⟨hdepth, hnonneg⟩, ?_⟩
    · rcases hspan with ⟨hnone, hstart⟩ | ⟨hone, hsep, hstart⟩
      · rw [hstart] at hcut
        rw [hnone]
        exact hcut
      · rw [hstart] at hcut
        rw [hone]
        exact .cut h.start hlt hsep h.whole hcut
    · obtain ⟨w', hw', hzero⟩ := Option.map_eq_some_iff.mp hlast
      rw [List.getLast?_cons, hw']
      exact congrArg some hzero

/-! ## 4. The segments of a text -/

/-- What the spans of the segments of a text are, given its delimiters. -/
structure Segments (cs : List Char) (pairs spans : List (Nat × Nat)) : Prop where
  first : spans.head?.map (·.1) = some 0
  last : spans.getLast?.map (·.2) = some cs.length
  ordered : ∀ s ∈ spans, s.1 ≤ s.2
  /-- Between two spans stands one character, a separator that divides them. -/
  separated : spans.IsChain fun s t => t.1 = s.2 + 1 ∧ Separates cs pairs s.2
  joined : ['/'].intercalate (spans.map (slice cs)) = cs
  /-- A separator that is left in a span is escaped or inside a pair. -/
  kept : ∀ s ∈ spans, ∀ i, s.1 ≤ i → i < s.2 → cs[i]? = some '/' →
    endBackslashes (cs.take i) % 2 = 1 ∨ ∃ p ∈ pairs, p.1 < i ∧ i < p.2
  /-- Every pair lies wholly inside one span. -/
  whole : ∀ p ∈ pairs, ∃ s ∈ spans, s.1 ≤ p.1 ∧ p.2 < s.2

section Cutting

variable {divides : Nat → Prop} {stop start : Nat} {spans : List (Nat × Nat)}

theorem CutAt.head? (h : CutAt divides stop start spans) : spans.head?.map (·.1) = some start := by
  cases h <;> rfl

theorem CutAt.getLast? (h : CutAt divides stop start spans) :
    spans.getLast?.map (·.2) = some stop := by
  induction h with
  | last => rfl
  | cut _ _ _ _ _ ih =>
    obtain ⟨s, hs, hstop⟩ := Option.map_eq_some_iff.mp ih
    rw [List.getLast?_cons, hs]
    exact congrArg some hstop

theorem CutAt.isChain (h : CutAt divides stop start spans) :
    spans.IsChain fun s t => t.1 = s.2 + 1 ∧ divides s.2 := by
  induction h with
  | last => exact List.isChain_singleton _
  | cut _ _ hdivides _ hrest ih =>
    cases hrest with
    | last => exact List.isChain_cons_cons.mpr ⟨⟨rfl, hdivides⟩, ih⟩
    | cut => exact List.isChain_cons_cons.mpr ⟨⟨rfl, hdivides⟩, ih⟩

/-- No place in a span divides. -/
theorem CutAt.not_divides (h : CutAt divides stop start spans) {s : Nat × Nat} (hs : s ∈ spans) :
    s.1 ≤ s.2 ∧ ∀ i, s.1 ≤ i → i < s.2 → ¬ divides i := by
  induction h with
  | last hle hno =>
    rw [List.mem_singleton.mp hs]
    exact ⟨hle, hno⟩
  | cut hle _ _ hno _ ih =>
    rcases List.mem_cons.mp hs with rfl | hs
    · exact ⟨hle, hno⟩
    · exact ih hs

/-- Places with none between them that divides lie in one span. -/
theorem CutAt.exists_span (h : CutAt divides stop start spans) {a b : Nat} (ha : start ≤ a)
    (hb : b < stop) (hno : ∀ i, a ≤ i → i ≤ b → ¬ divides i) :
    ∃ s ∈ spans, s.1 ≤ a ∧ b < s.2 := by
  induction h with
  | last => exact ⟨_, List.mem_cons_self, ha, hb⟩
  | @cut start i spans _ _ hdivides _ _ ih =>
    by_cases hfront : b < i
    · exact ⟨_, List.mem_cons_self, ha, hfront⟩
    · by_cases hbehind : i < a
      · obtain ⟨s, hs, hspan⟩ := ih hbehind
        exact ⟨s, List.mem_cons_of_mem _ hs, hspan⟩
      · exact absurd hdivides (hno i (by omega) (by omega))

/-- Joining the spans with what stands between them gives the text from the start on. -/
theorem CutAt.intercalate_slice {cs : List Char} (h : CutAt divides cs.length start spans)
    (hslash : ∀ i, divides i → cs[i]? = some '/') :
    ['/'].intercalate (spans.map (slice cs)) = cs.drop start := by
  induction h with
  | last => simp [slice, List.intercalate]
  | @cut start i spans hle _ hdivides _ hrest ih =>
    obtain ⟨hi, hget⟩ := List.getElem?_eq_some_iff.mp (hslash i hdivides)
    have hnext : ['/'].intercalate ((slice cs (start, i)) :: spans.map (slice cs)) =
        slice cs (start, i) ++ '/' :: ['/'].intercalate (spans.map (slice cs)) := by
      cases hrest <;> simp [List.intercalate]
    have hbehind : cs.drop i = (cs.drop start).drop (i - start) := by
      rw [List.drop_drop, Nat.add_sub_cancel' hle]
    rw [List.map_cons, hnext, ih, slice, ← hget, List.getElem_cons_drop, List.drop_take, hbehind,
      List.take_append_drop]

end Cutting

/-- **Splitting a text at its separators** loses nothing and cuts no group: the spans of the segments
    are in order and divided by single separators that are neither escaped nor inside a pair, and
    each pair lies in one span. The walk that finds them never counts less than no open group, and
    none at the end. -/
theorem segmentSpans_pairsOf (cs : List Char) :
    (walk (pairsOf cs) false {} 0 cs).1 = segmentSpans cs (pairsOf cs) ∧
      Segments cs (pairsOf cs) (segmentSpans cs (pairsOf cs)) ∧
      (∀ w ∈ (walk (pairsOf cs) false {} 0 cs).2, 0 ≤ w.depth) ∧
      (walk (pairsOf cs) false {} 0 cs).2.getLast?.map (·.depth) = some 0 := by
  have hd := delimiters_pairsOf cs
  have hstart : Walk.At cs (pairsOf cs) 0 false {} := by
    refine ⟨rfl, ?_, Nat.le_refl _, fun j _ hj => absurd hj (Nat.not_lt_zero j)⟩
    rw [openAt_eq_zero.mpr fun p _ hopen => Nat.not_lt_zero _ hopen.1]
    rfl
  obtain ⟨hcut, hnonneg, hlast⟩ := walk_spec hd List.drop_zero (Nat.zero_le _) hstart
  have hspans : (walk (pairsOf cs) false {} 0 cs).1 = segmentSpans cs (pairsOf cs) := walk_fst ..
  rw [hspans] at hcut
  refine ⟨hspans, ⟨hcut.head?, hcut.getLast?, fun s hs => (hcut.not_divides hs).1, hcut.isChain,
    hcut.intercalate_slice fun i hsep => hsep.1, fun s hs i hi hi' hslash => ?_, fun p hp => ?_⟩,
    hnonneg, hlast⟩
  · have hno := (hcut.not_divides hs).2 i hi hi'
    by_cases heven : endBackslashes (cs.take i) % 2 = 0
    · by_contra hnot
      push Not at hnot
      exact hno ⟨hslash, heven, fun q hq haround =>
        Nat.not_lt.mpr (hnot.2 q hq haround.1) haround.2⟩
    · exact .inl (by omega)
  · refine hcut.exists_span (Nat.zero_le _) (hd.inside p hp).2 fun i hi hi' hsep => ?_
    rcases Nat.lt_or_eq_of_le hi with hi | hi
    · rcases Nat.lt_or_eq_of_le hi' with hi' | hi'
      · exact hsep.2.2 p hp ⟨hi, hi'⟩
      · exact not_separates_of_delimiter hd hp (.inr hi'.symm) hsep
    · exact not_separates_of_delimiter hd hp (.inl hi) hsep

end Wildcard.Glob
