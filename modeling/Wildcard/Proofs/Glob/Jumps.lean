import Wildcard.Proofs.Glob.Splitting

/-!
# Splitting with jumps

A text can be split at a delimiter without counting groups: whoever meets an opener goes on behind
its partner, and so never looks inside a group or a class. Counting looks everywhere, classes
included, where a backslash takes the next character with it as it does outside. Both come to the
same spans, since a partner is never passed over and no pair reaches out of another one.

* `jumpSpans`: the spans between delimiters, found with jumps.
* `CutAt.unique`: where spans are cut decides what they are.
* `Jumping`: what holds of a walk with jumps; it stays outside all groups (`openAt_behind`) and so
  cuts at the separators that divide segments (`cutAt_jumpSpansFrom`).
* `jumpSpans_pairsOf`: it finds the pieces that the tree of the text is cut into.
* `segmentSpans_eq_jumpSpans`: counting and jumping find the same spans.
-/

namespace Wildcard.Glob

open Wildcard.Bracket (endBackslashes)

/-! ## 1. The walk -/

/-- The place of the closer whose opener stands at a place. -/
def partner? (pairs : List (Nat × Nat)) (i : Nat) : Option Nat :=
  (pairs.find? (·.1 == i)).map (·.2)

/-- The spans between the delimiters outside all groups. The first number counts the characters
    still to be passed over, the second is where the span began. -/
def jumpSpansFrom (pairs : List (Nat × Nat)) (delimiter : Char) :
    Nat → Nat → Nat → List Char → List (Nat × Nat)
  | _, start, i, [] => [(start, i)]
  | n + 1, start, i, _ :: rest => jumpSpansFrom pairs delimiter n start (i + 1) rest
  | 0, start, i, c :: rest =>
    if c = '\\' then jumpSpansFrom pairs delimiter 1 start (i + 1) rest
    else
      match partner? pairs i with
      | some j => jumpSpansFrom pairs delimiter (j - i) start (i + 1) rest
      | none =>
        if c = delimiter then
          (start, i) :: jumpSpansFrom pairs delimiter 0 (i + 1) (i + 1) rest
        else jumpSpansFrom pairs delimiter 0 start (i + 1) rest

/-- The spans of a text between its delimiters outside all groups. -/
def jumpSpans (delimiter : Char) (cs : List Char) (pairs : List (Nat × Nat)) : List (Nat × Nat) :=
  jumpSpansFrom pairs delimiter 0 0 0 cs

theorem mem_of_partner? {pairs : List (Nat × Nat)} {i j : Nat} (h : partner? pairs i = some j) :
    (i, j) ∈ pairs := by
  obtain ⟨p, hp, rfl⟩ := Option.map_eq_some_iff.mp h
  have hopener := List.find?_some hp
  rw [← beq_iff_eq.mp hopener]
  exact List.mem_of_find?_eq_some hp

theorem partner?_eq_none {pairs : List (Nat × Nat)} {i : Nat} :
    partner? pairs i = none ↔ ∀ p ∈ pairs, p.1 ≠ i := by
  simp [partner?]

/-! ## 2. The same cuts as counting -/

/-- Spans are decided by the places where they are cut. -/
theorem CutAt.unique {divides : Nat → Prop} {stop start : Nat} {spans spans' : List (Nat × Nat)}
    (h : CutAt divides stop start spans) (h' : CutAt divides stop start spans') :
    spans = spans' := by
  induction h generalizing spans' with
  | last _ hno =>
    cases h' with
    | last => rfl
    | cut hle hlt hdivides => exact absurd hdivides (hno _ hle hlt)
  | @cut start i spans hle hlt hdivides hno _ ih =>
    cases h' with
    | last _ hno' => exact absurd hdivides (hno' i hle hlt)
    | @cut _ i' _ hle' _ hdivides' hno' hrest' =>
      rcases Nat.lt_trichotomy i i' with hi | rfl | hi
      · exact absurd hdivides (hno' i hle hi)
      · rw [ih hrest']
      · exact absurd hdivides' (hno i' hle' hi)

/-- No pair reaches out of another one. -/
def Apart (pairs : List (Nat × Nat)) : Prop :=
  ∀ p ∈ pairs, ∀ q ∈ pairs, p ≠ q → p.2 < q.1 ∨ q.2 < p.1 ∨ Encloses p q ∨ Encloses q p

/-- What holds of the walk at place `i` with `n` characters to pass over: nothing is divided up to
    where it goes on, and there nothing is open and nothing escaped. -/
structure Jumping (cs : List Char) (pairs : List (Nat × Nat)) (start i n : Nat) : Prop where
  began : start ≤ i
  whole : ∀ j, start ≤ j → j < i + n → ¬ Separates cs pairs j
  unescaped : i + n ≤ cs.length → endBackslashes (cs.take (i + n)) % 2 = 0
  closed : i + n ≤ cs.length → openAt pairs (i + n) = 0

section Steps

variable {cs : List Char} {pairs : List (Nat × Nat)} {start i n : Nat} {c : Char}

/-- Nothing is open behind the closer of a pair if nothing was in front of its opener. -/
theorem openAt_behind (hd : Delimiters cs pairs) (hapart : Apart pairs) {p : Nat × Nat}
    (hp : p ∈ pairs) (hopen : openAt pairs p.1 = 0) : openAt pairs (p.2 + 1) = 0 := by
  have hlt := (hd.inside p hp).1
  refine openAt_eq_zero.mpr fun q hq hopened => ?_
  have hne : p ≠ q := by
    rintro rfl
    omega
  have hbefore := openAt_eq_zero.mp hopen q hq
  rcases hapart p hp q hq hne with h | h | ⟨_, h⟩ | ⟨h, _⟩ <;> omega

/-- A backslash takes the next character with it. -/
theorem Jumping.backslash (hd : Delimiters cs pairs) (h : Jumping cs pairs start i 0)
    (hc : cs[i]? = some '\\') : Jumping cs pairs start (i + 1) 1 := by
  have hlt := (List.getElem?_eq_some_iff.mp hc).1
  have heven := h.unescaped (Nat.le_of_lt hlt)
  have hodd : endBackslashes (cs.take (i + 1)) % 2 = 1 := by
    rw [endBackslashes_take_succ hc, if_pos rfl]
    rw [Nat.add_zero] at heven
    omega
  obtain ⟨hopener, hcloser⟩ := hd.not_any (.inl hc)
  obtain ⟨hopener', hcloser'⟩ := hd.not_any (.inr hodd)
  refine ⟨Nat.le_succ_of_le h.began, fun j hj hj' hsep => ?_, fun hle => ?_, fun _ => ?_⟩
  · rcases Nat.lt_trichotomy j i with hji | rfl | hji
    · exact h.whole j hj hji hsep
    · exact absurd (Option.some.inj (hc.symm.trans hsep.1)) (by decide)
    · obtain rfl : j = i + 1 := by omega
      exact absurd (hodd.symm.trans hsep.2.1) (by decide)
  · obtain ⟨c', hc'⟩ : ∃ c', cs[i + 1]? = some c' := ⟨_, List.getElem?_eq_getElem hle⟩
    rw [endBackslashes_take_succ hc']
    split <;> omega
  · rw [hd.openAt_other hopener' hcloser', hd.openAt_other hopener hcloser]
    exact h.closed (Nat.le_of_lt hlt)

/-- An opener is passed together with all that its pair holds. -/
theorem Jumping.opener (hd : Delimiters cs pairs) (hapart : Apart pairs)
    (h : Jumping cs pairs start i 0) {j : Nat} (hj : (i, j) ∈ pairs) :
    Jumping cs pairs start (i + 1) (j - i) := by
  obtain ⟨hlt, hinside⟩ := hd.inside _ hj
  have hgoal : i + 1 + (j - i) = j + 1 := by simp only at hlt; omega
  have hclosed := h.closed (by simp only at hlt hinside; omega)
  refine ⟨Nat.le_succ_of_le h.began, fun k hk hk' hsep => ?_, fun _ => ?_, fun _ => ?_⟩
  · rw [hgoal] at hk'
    rcases Nat.lt_trichotomy k i with hki | rfl | hki
    · exact h.whole k hk hki hsep
    · exact not_separates_of_delimiter hd hj (.inl rfl) hsep
    · rcases Nat.lt_or_eq_of_le (Nat.le_of_lt_succ hk') with hkj | rfl
      · exact hsep.2.2 _ hj ⟨hki, hkj⟩
      · exact not_separates_of_delimiter hd hj (.inr rfl) hsep
  · obtain ⟨hback, -, -⟩ := hd.at_place hj (.inr rfl)
    obtain ⟨c, hc⟩ : ∃ c, cs[j]? = some c := ⟨_, List.getElem?_eq_getElem hinside⟩
    have hne : c ≠ '\\' := by
      rintro rfl
      exact hback hc
    rw [hgoal, endBackslashes_take_succ hc, if_neg hne]
  · rw [hgoal]
    exact openAt_behind hd hapart hj hclosed

/-- Where nothing is open, no closer stands. -/
theorem not_closer_of_closed (hd : Delimiters cs pairs) (hclosed : openAt pairs i = 0) :
    ¬ pairs.any (·.2 == i) = true := by
  intro hany
  obtain ⟨p, hp, hpi⟩ := List.any_eq_true.mp hany
  have hcloser : p.2 = i := beq_iff_eq.mp hpi
  have hlt := (hd.inside p hp).1
  exact openAt_eq_zero.mp hclosed p hp ⟨by omega, by omega⟩

/-- Behind a character that is neither a backslash nor an opener comes the next one. -/
theorem Jumping.other (hd : Delimiters cs pairs) (h : Jumping cs pairs start i 0)
    (hc : cs[i]? = some c) (hback : c ≠ '\\') (hopener : ¬ pairs.any (·.1 == i) = true) :
    endBackslashes (cs.take (i + 1)) % 2 = 0 ∧ openAt pairs (i + 1) = 0 ∧
      (Separates cs pairs i ↔ c = '/') := by
  have hlt := (List.getElem?_eq_some_iff.mp hc).1
  have hclosed := h.closed (Nat.le_of_lt hlt)
  have hcloser := not_closer_of_closed hd hclosed
  refine ⟨?_, ?_, ?_⟩
  · rw [endBackslashes_take_succ hc, if_neg hback]
  · rw [hd.openAt_other hopener hcloser]
    exact hclosed
  · rw [separates_iff hc (h.unescaped (Nat.le_of_lt hlt)) hcloser]
    exact and_iff_left hclosed

/-- **The walk with jumps** cuts at the separators that divide segments. -/
theorem cutAt_jumpSpansFrom (hd : Delimiters cs pairs) (hapart : Apart pairs) {rest : List Char}
    (hrest : cs.drop i = rest) (hi : i ≤ cs.length) (h : Jumping cs pairs start i n) :
    CutAt (Separates cs pairs) cs.length start (jumpSpansFrom pairs '/' n start i rest) := by
  induction rest generalizing start i n with
  | nil =>
    have hend : i = cs.length := Nat.le_antisymm hi (List.drop_eq_nil_iff.mp hrest)
    subst hend
    have hlast : jumpSpansFrom pairs '/' n start cs.length [] = [(start, cs.length)] := by
      cases n <;> rfl
    rw [hlast]
    exact .last h.began fun j hj hj' => h.whole j hj (by omega)
  | cons c rest ih =>
    have hc : cs[i]? = some c := by rw [← List.head?_drop, hrest]; rfl
    have hlt : i < cs.length := (List.getElem?_eq_some_iff.mp hc).1
    have hnext : cs.drop (i + 1) = rest := by rw [← List.tail_drop, hrest]; rfl
    cases n with
    | succ n =>
      have hplace : i + (n + 1) = i + 1 + n := by omega
      obtain ⟨hstart, hwhole, hunescaped, hclosed⟩ := h
      rw [hplace] at hwhole hunescaped hclosed
      rw [jumpSpansFrom]
      exact ih hnext hlt ⟨Nat.le_succ_of_le hstart, hwhole, hunescaped, hclosed⟩
    | zero =>
      rw [jumpSpansFrom]
      by_cases hback : c = '\\'
      · rw [if_pos hback]
        exact ih hnext hlt (h.backslash hd (hback ▸ hc))
      · rw [if_neg hback]
        cases hpartner : partner? pairs i with
        | some j => exact ih hnext hlt (h.opener hd hapart (mem_of_partner? hpartner))
        | none =>
          have hopener : ¬ pairs.any (·.1 == i) = true := fun hany => by
            obtain ⟨p, hp, hpi⟩ := List.any_eq_true.mp hany
            exact partner?_eq_none.mp hpartner p hp (beq_iff_eq.mp hpi)
          obtain ⟨heven, hclosed, hsep⟩ := h.other hd hc hback hopener
          by_cases hslash : c = '/'
          · simp only [if_pos hslash]
            refine .cut h.began hlt (hsep.mpr hslash) h.whole (ih hnext hlt ?_)
            exact ⟨Nat.le_refl _, fun j hj hj' => absurd hj' (Nat.not_lt.mpr hj), fun _ => heven,
              fun _ => hclosed⟩
          · simp only [if_neg hslash]
            refine ih hnext hlt ⟨Nat.le_succ_of_le h.began, fun j hj hj' => ?_, fun _ => heven,
              fun _ => hclosed⟩
            rcases Nat.lt_or_eq_of_le (Nat.le_of_lt_succ hj') with hj' | rfl
            · exact h.whole j hj hj'
            · exact fun hdivides => hslash (hsep.mp hdivides)

end Steps

/-- Nothing is open at the beginning. -/
theorem openAt_zero (pairs : List (Nat × Nat)) : openAt pairs 0 = 0 :=
  openAt_eq_zero.mpr fun _ _ hopen => Nat.not_lt_zero _ hopen.1

/-- **The spans of the segments** are cut at the separators that divide segments. -/
theorem cutAt_segmentSpans (cs : List Char) :
    CutAt (Separates cs (pairsOf cs)) cs.length 0 (segmentSpans cs (pairsOf cs)) := by
  have hstart : Walk.At cs (pairsOf cs) 0 false {} :=
    ⟨rfl, by rw [openAt_zero]; rfl, Nat.le_refl _, fun j _ hj => absurd hj (Nat.not_lt_zero j)⟩
  have hcut := (walk_spec (delimiters_pairsOf cs) List.drop_zero (Nat.zero_le _) hstart).1
  rw [walk_fst] at hcut
  exact hcut

theorem cutAt_jumpSpans (cs : List Char) :
    CutAt (Separates cs (pairsOf cs)) cs.length 0 (jumpSpans '/' cs (pairsOf cs)) := by
  have hstart : Jumping cs (pairsOf cs) 0 0 0 :=
    ⟨Nat.le_refl _, fun j _ hj => absurd hj (Nat.not_lt_zero j), fun _ => rfl,
      fun _ => openAt_zero _⟩
  exact cutAt_jumpSpansFrom (delimiters_pairsOf cs)
    (fun p hp q hq hne => apart_or_encloses hp hq hne) List.drop_zero (Nat.zero_le _) hstart

/-! ## 3. The same pieces as the tree -/

/-- The spans of pieces that stand one behind the other with a delimiter between any two, the first
    one from place `i` on; its span began already at `start`. -/
def spansOf (start i : Nat) (first : Glob) : List Glob → List (Nat × Nat)
  | [] => [(start, i + first.length)]
  | next :: others =>
    (start, i + first.length) ::
      spansOf (i + first.length + 1) (i + first.length + 1) next others

/-- Whatever stands in front of the rest of the first piece only makes its span longer. -/
theorem spansOf_front {start i k : Nat} {first first' : Glob} (h : first'.length = k + first.length)
    (others : List Glob) : spansOf start i first' others = spansOf start (i + k) first others := by
  have hplace : i + first'.length = i + k + first.length := by omega
  cases others with
  | nil => rw [spansOf, spansOf, hplace]
  | cons next others => rw [spansOf, spansOf, hplace]

section Passing

variable {pairs : List (Nat × Nat)} {d : Char} {start i j : Nat}

/-- Characters that are to be passed over are passed over. -/
theorem jumpSpansFrom_append (passed rest : List Char) :
    jumpSpansFrom pairs d passed.length start i (passed ++ rest) =
      jumpSpansFrom pairs d 0 start (i + passed.length) rest := by
  induction passed generalizing i with
  | nil => rfl
  | cons c passed ih =>
    rw [List.length_cons, List.cons_append, jumpSpansFrom, ih]
    congr 1
    omega

/-- A pair of delimiters is passed together with what it holds. -/
theorem jumpSpansFrom_pair {opener closer : Char} {inside : List Char} (hopener : opener ≠ '\\')
    (hpartner : partner? pairs i = some (i + inside.length + 1)) (rest : List Char) :
    jumpSpansFrom pairs d 0 start i (opener :: (inside ++ closer :: rest)) =
      jumpSpansFrom pairs d 0 start (i + inside.length + 2) rest := by
  have hpassed : i + inside.length + 1 - i = (inside ++ [closer]).length := by
    rw [List.length_append, List.length_singleton]
    omega
  have hplace : i + 1 + (inside ++ [closer]).length = i + inside.length + 2 := by omega
  rw [jumpSpansFrom, if_neg hopener, hpartner, List.append_cons]
  simp only [hpassed]
  rw [jumpSpansFrom_append, hplace]

theorem partner?_cons (p : Nat × Nat) :
    partner? (p :: pairs) i = if p.1 = i then some p.2 else partner? pairs i := by
  unfold partner?
  by_cases h : p.1 = i
  · simp [h]
  · simp [h, beq_false_of_ne h]

theorem partner?_append (pairs' : List (Nat × Nat)) (h : ∀ p ∈ pairs, p.1 ≠ i) :
    partner? (pairs ++ pairs') i = partner? pairs' i := by
  have hnone : pairs.find? (·.1 == i) = none := by simpa using h
  rw [partner?, List.find?_append, hnone, Option.none_or, partner?]

/-- Behind a group its own pairs say nothing. -/
theorem partner?_group {k : Grouping} {body rest : Glob} (h : i + body.length + 2 ≤ j) :
    partner? ((group k body rest).pairs i) j = partner? (rest.pairs (i + body.length + 2)) j := by
  rw [pairs, partner?_cons, if_neg (by simp only; omega)]
  refine partner?_append _ fun p hp => ?_
  have := mem_pairs_inside hp
  omega

end Passing

/-- A bare backslash has nothing behind it. -/
def BackslashLast (ms : List Mark) : Prop :=
  ∀ front back, ms = front ++ .char '\\' :: back → back = []

theorem backslashLast_marksOf (cs : List Char) : BackslashLast (marksOf cs) := by
  intro front back h
  obtain ⟨rest, hrest⟩ := exists_marksOf_of_append h
  obtain ⟨rest', hback, hbegins⟩ := begins_of_marksOf hrest.symm
  cases hbegins with
  | backslash => exact hback
  | char _ _ hne => exact absurd rfl hne

theorem BackslashLast.of_append (front : List Mark) {ms : List Mark}
    (h : BackslashLast (front ++ ms)) : BackslashLast ms := fun front' back hms =>
  h (front ++ front') back (by rw [hms, List.append_assoc])

theorem eq_done_of_toMarks {g : Glob} (h : g.toMarks = []) : g = done := by
  cases g with
  | done => rfl
  | char c rest => cases h
  | escaped c rest => cases h
  | bracket body rest => cases h
  | group k body rest => cases h

/-- **Jumping over a text finds the pieces of its tree**, from any place on where the pairs are
    those of the tree. -/
theorem jumpSpansFrom_text {ps : List (Nat × Nat)} {d : Char} (hd : d ≠ '\\') (g : Glob)
    {start i : Nat} (hlast : BackslashLast g.toMarks)
    (hps : ∀ j, i ≤ j → j < i + g.length → partner? ps j = partner? (g.pairs i) j) :
    jumpSpansFrom ps d 0 start i g.text = spansOf start i (g.splitOn d).1 (g.splitOn d).2 := by
  induction g generalizing start i with
  | done => rfl
  | char c rest ih =>
    by_cases hback : c = '\\'
    · subst hback
      have hrest : rest = done := eq_done_of_toMarks (hlast [] rest.toMarks rfl)
      subst hrest
      simp only [splitOn, if_neg hd.symm]
      rfl
    · have hnone : partner? ps i = none := by
        rw [hps i (Nat.le_refl i) (Nat.lt_add_of_pos_right (Nat.succ_pos _))]
        refine partner?_eq_none.mpr fun p hp => ?_
        have := mem_pairs_inside (show p ∈ rest.pairs (i + 1) from hp)
        omega
      have hrest {s : Nat} : jumpSpansFrom ps d 0 s (i + 1) rest.text =
          spansOf s (i + 1) (rest.splitOn d).1 (rest.splitOn d).2 :=
        ih (hlast.of_append [.char c]) fun j hj hj' =>
          hps j (by omega) (by rw [length]; omega)
      rw [text, jumpSpansFrom, if_neg hback, hnone]
      simp only [splitOn, hrest]
      split
      · rfl
      · exact (spansOf_front (Nat.add_comm _ _) _).symm
  | escaped c rest ih =>
    have hrest : jumpSpansFrom ps d 0 start (i + 2) rest.text =
        spansOf start (i + 2) (rest.splitOn d).1 (rest.splitOn d).2 :=
      ih (hlast.of_append [.escaped c]) fun j hj hj' => hps j (by omega) (by rw [length]; omega)
    rw [splitOn, spansOf_front (Nat.add_comm _ 2), ← hrest]
    rfl
  | bracket body rest ih =>
    have hpartner : partner? ps i = some (i + body.length + 1) := by
      rw [hps i (Nat.le_refl i) (by rw [length]; omega), pairs, partner?_cons, if_pos rfl]
    have hrest : jumpSpansFrom ps d 0 start (i + body.length + 2) rest.text =
        spansOf start (i + body.length + 2) (rest.splitOn d).1 (rest.splitOn d).2 :=
      ih (hlast.of_append [.bracket body]) fun j hj hj' => by
        rw [hps j (by omega) (by rw [length]; omega), pairs, partner?_cons,
          if_neg (by simp only; omega)]
    rw [text, List.cons_append, jumpSpansFrom_pair (by decide) hpartner, hrest]
    exact (spansOf_front (show _ = body.length + 2 + _ from rfl) _).symm
  | group k body rest _ ih =>
    have hopener : k.opener ≠ '\\' := by cases k <;> decide
    have hpartner : partner? ps i = some (i + body.text.length + 1) := by
      rw [hps i (Nat.le_refl i) (by rw [length]; omega), pairs, partner?_cons, if_pos rfl,
        length_text]
    have hmarks : (group k body rest).toMarks =
        (.char k.opener :: body.toMarks ++ [.char k.closer]) ++ rest.toMarks := by
      simp [toMarks]
    rw [hmarks] at hlast
    have hrest : jumpSpansFrom ps d 0 start (i + body.length + 2) rest.text =
        spansOf start (i + body.length + 2) (rest.splitOn d).1 (rest.splitOn d).2 :=
      ih (hlast.of_append _) fun j hj hj' => by
        rw [hps j (by omega) (by rw [length]; omega), partner?_group hj]
    rw [text, List.cons_append, jumpSpansFrom_pair hopener hpartner, length_text, hrest]
    exact (spansOf_front (show _ = body.length + 2 + _ from rfl) _).symm

/-- **With jumps the pieces are found** that the tree of the text is cut into. -/
theorem jumpSpans_pairsOf {d : Char} (hd : d ≠ '\\') (cs : List Char) :
    jumpSpans d cs (pairsOf cs) =
      spansOf 0 0 ((read cs).splitOn d).1 ((read cs).splitOn d).2 := by
  have hlast : BackslashLast (read cs).toMarks := by
    rw [toMarks_read]
    exact backslashLast_marksOf cs
  have hspans : jumpSpansFrom (pairsOf cs) d 0 0 0 (read cs).text =
      spansOf 0 0 ((read cs).splitOn d).1 ((read cs).splitOn d).2 :=
    jumpSpansFrom_text hd (read cs) hlast fun _ _ _ => rfl
  rwa [text_read] at hspans

/-- **Counting and jumping find the same spans** in every text, those of the pieces that its tree is
    cut into. -/
theorem segmentSpans_eq_jumpSpans (cs : List Char) :
    segmentSpans cs (pairsOf cs) = jumpSpans '/' cs (pairsOf cs) ∧
      jumpSpans '/' cs (pairsOf cs) =
        spansOf 0 0 ((read cs).splitOn '/').1 ((read cs).splitOn '/').2 :=
  ⟨(cutAt_segmentSpans cs).unique (cutAt_jumpSpans cs), jumpSpans_pairsOf (by decide) cs⟩

end Wildcard.Glob
