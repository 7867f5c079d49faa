import Mathlib.Data.List.Forall2
import Wildcard.Proofs.Glob.Boundary
import Wildcard.Proofs.Glob.Jumps
import Wildcard.Proofs.Glob.Pieces

/-!
# The regex of a pattern by places

A pattern can be written as a regex without its tree, from its text and the places of its
delimiters alone: a stretch of the text is walked over place by place, and whoever meets an opener
goes on behind its partner. Every look at a place may fail, and so may every walk that takes more
rounds than it is given. None does: what is found is what the tree says, for every stretch that
holds a tree and its delimiters.

* `Placed`: a tree stands at a place of the text.
* `cutInside?_eq`: cutting a stretch gives the places of the pieces of its tree.
* `translateInside?_eq`: the regex of a stretch is that of its tree.
* `segmentInside?_eq`: the same for a segment with its guard and its kind.
-/

namespace Wildcard

/-- The character at a place in front of `stop`, or none from there on; it fails if the text does
    not reach that far. -/
def charBefore? (cs : List Char) (stop i : Nat) : Option (Option Char) :=
  if i < stop then cs[i]?.map some else some none

/-- Behind a place stands what comes first there, unless the stretch ends. -/
theorem charBefore?_eq {cs inside after : List Char} {i : Nat} (h : cs.drop i = inside ++ after) :
    charBefore? cs (i + inside.length) i = some inside.head? := by
  cases inside with
  | nil => exact if_neg (Nat.lt_irrefl i)
  | cons c rest =>
    have hlt : i < i + (c :: rest).length := Nat.lt_add_of_pos_right (Nat.succ_pos _)
    rw [charBefore?, if_pos hlt, (getElem?_of_drop h).1]
    rfl

/-- The text of a stretch is what stands there. -/
theorem Glob.slice_of_drop {cs inside after : List Char} {i : Nat}
    (h : cs.drop i = inside ++ after) : Glob.slice cs (i, i + inside.length) = inside := by
  rw [Glob.slice, List.drop_take, h, Nat.add_sub_cancel_left]
  exact List.take_left

/-! ## 1. Classes -/

namespace Bracket

open Regex (Literal Single)

/-- What the members of a class are written as, from a place on; the class ends at `stop`. The
    first number bounds the rounds of the walk. -/
def itemsInside? (cs : List Char) (stop : Nat) : Nat → Position → Nat → Option (List Literal)
  | 0, _, _ => none
  | n + 1, p, i =>
    if stop ≤ i then some []
    else
      cs[i]?.bind fun c => (charBefore? cs stop (i + 1)).bind fun next =>
        match if c = '\\' then next else none with
        | some x => (itemsInside? cs stop n .within (i + 2)).map (.member x :: ·)
        | none =>
          match if ['[', ':'].isPrefixOf (cs.drop i) then named? (Glob.slice cs (i + 2, stop))
              else none with
          | some (literals, k) =>
            (itemsInside? cs stop n .afterName (i + k + 4)).map (literals ++ ·)
          | none =>
            (itemsInside? cs stop n .within (i + 1)).map
              ((if c = '-' ∧ p = .within ∧ next ≠ none then .bare '-' else .member c) :: ·)

/-- What a class is written as, given the places of its brackets. -/
def itemInside? (cs : List Char) (n opener closer : Nat) : Option Single :=
  cs[opener + 1]?.bind fun c =>
    if isNegation c then
      (itemsInside? cs closer n .first (opener + 2)).map fun items =>
        .set true (items ++ [.bare '/'])
    else (itemsInside? cs closer n .first (opener + 1)).map (.set false)

variable {cs after : List Char}

/-- A round of the walk over the members, given what comes next in the text. -/
theorem itemsInside?_cons {c : Char} {rest : List Char} {i : Nat}
    (h : cs.drop i = c :: rest ++ ']' :: after) (n : Nat) (p : Position) :
    itemsInside? cs (i + 1 + rest.length) (n + 1) p i =
      match if c = '\\' then rest.head? else none with
      | some x =>
        (itemsInside? cs (i + 1 + rest.length) n .within (i + 2)).map (.member x :: ·)
      | none =>
        match if c = '[' ∧ rest.head? = some ':' then named? (rest.drop 1) else none with
        | some (literals, k) =>
          (itemsInside? cs (i + 1 + rest.length) n .afterName (i + k + 4)).map (literals ++ ·)
        | none =>
          (itemsInside? cs (i + 1 + rest.length) n .within (i + 1)).map
            ((if c = '-' ∧ p = .within ∧ rest ≠ [] then .bare '-' else .member c) :: ·) := by
  have hrest := (getElem?_of_drop h).2
  have hnamed : (if ['[', ':'].isPrefixOf (cs.drop i) = true then
      named? (Glob.slice cs (i + 2, i + 1 + rest.length)) else none) =
        if c = '[' ∧ rest.head? = some ':' then named? (rest.drop 1) else none := by
    rw [h]
    cases rest with
    | nil => simp [List.isPrefixOf_cons_cons]
    | cons x rest =>
      have hplace : i + 1 + (x :: rest).length = i + 2 + rest.length := by
        rw [List.length_cons]
        omega
      rw [hplace, Glob.slice_of_drop (getElem?_of_drop hrest).2]
      refine if_congr ?_ rfl rfl
      simp only [List.cons_append, List.isPrefixOf_cons_cons, List.isPrefixOf_nil_left,
        Bool.and_true, Bool.and_eq_true, beq_iff_eq, List.head?_cons, Option.some.injEq]
      exact and_congr eq_comm eq_comm
  rw [itemsInside?, if_neg (by omega), (getElem?_of_drop h).1, Option.bind_some,
    charBefore?_eq hrest, Option.bind_some, hnamed]
  simp only [ne_eq, List.head?_eq_none_iff]

/-- **The members of a class are found by their places.** -/
theorem itemsInside?_eq (k : Nat) (p : Position) (body : List Char) {n i : Nat}
    (hn : body.length < n) (h : cs.drop i = body ++ ']' :: after) :
    itemsInside? cs (i + body.length) n p (i + k) = some (itemsFrom k p body) := by
  have hstop (i : Nat) (c : Char) (rest : List Char) :
      i + (c :: rest).length = i + 1 + rest.length := by
    rw [List.length_cons]
    omega
  have hescape (c : Char) (rest : List Char)
      (hno : ∀ x rest', c = '\\' → rest = x :: rest' → False) :
      (if c = '\\' then rest.head? else none) = none := by
    split
    · rename_i hc
      cases rest with
      | nil => rfl
      | cons x rest' => exact (hno x rest' hc rfl).elim
    · rfl
  fun_induction itemsFrom k p body generalizing n i with
  | case1 k p =>
    obtain ⟨n, rfl⟩ := Nat.exists_eq_succ_of_ne_zero (Nat.ne_zero_of_lt hn)
    exact if_pos (Nat.le_add_right i k)
  | case2 k p c rest ih =>
    have hrest := ih (Nat.lt_of_succ_lt hn) (getElem?_of_drop h).2
    rwa [Nat.add_assoc i 1 k, Nat.add_comm 1, ← hstop] at hrest
  | case3 p c rest ih =>
    obtain ⟨n, rfl⟩ := Nat.exists_eq_succ_of_ne_zero (Nat.ne_zero_of_lt hn)
    have hrest := ih (Nat.lt_of_succ_lt (Nat.lt_of_succ_lt_succ hn))
      (getElem?_of_drop (getElem?_of_drop h).2).2
    rw [hstop, Nat.add_zero i, itemsInside?_cons h, hstop]
    simp only [if_true, List.head?_cons, hrest]
    rfl
  | case4 p c rest hno literals k hk ih =>
    obtain ⟨n, rfl⟩ := Nat.exists_eq_succ_of_ne_zero (Nat.ne_zero_of_lt hn)
    have hrest := ih (Nat.lt_of_succ_lt_succ hn) (getElem?_of_drop h).2
    have hplace : i + 1 + (k + 3) = i + k + 4 := by omega
    rw [hplace] at hrest
    rw [hstop, Nat.add_zero i, itemsInside?_cons h, hescape c rest hno]
    simp only [hk, hrest]
    rfl
  | case5 p c rest hno hnone ih =>
    obtain ⟨n, rfl⟩ := Nat.exists_eq_succ_of_ne_zero (Nat.ne_zero_of_lt hn)
    have hrest := ih (Nat.lt_of_succ_lt_succ hn) (getElem?_of_drop h).2
    rw [hstop, Nat.add_zero i, itemsInside?_cons h, hescape c rest hno]
    simp only [hnone]
    rw [← Nat.add_zero (i + 1), hrest]
    rfl

/-- **A class is written by the places of its brackets.** -/
theorem itemInside?_eq {body : List Char} {n i : Nat} (hn : body.length < n)
    (h : cs.drop i = '[' :: body ++ ']' :: after) :
    itemInside? cs n i (i + body.length + 1) = some (item body) := by
  have hbody := (getElem?_of_drop h).2
  have hitems (k : Nat) : itemsInside? cs (i + body.length + 1) n .first (i + 1 + k) =
      some (itemsFrom k .first body) := by
    rw [Nat.add_right_comm]
    exact itemsInside?_eq k .first body hn hbody
  have hfirst : cs[i + 1]? = some (body.head?.getD ']') := by
    cases body with
    | nil => exact (getElem?_of_drop hbody).1
    | cons c rest => exact (getElem?_of_drop hbody).1
  rw [itemInside?, hfirst, Option.bind_some]
  cases body with
  | nil =>
    rw [if_neg (by decide), hitems 0]
    rfl
  | cons c rest =>
    rw [List.head?_cons, Option.getD_some, item, negationLength]
    split
    · rw [hitems 1, if_neg Nat.one_ne_zero]
      rfl
    · rw [hitems 0, if_pos rfl]
      rfl

end Bracket

namespace Glob

open Regex (grouped alternatives)

/-! ## 2. The walks -/

/-- What a stretch of a pattern is written as, and whether it is more than its text. -/
structure Fragment where
  regex : Regex := .done
  magic : Bool := false

instance : Append Fragment := ⟨fun w w' => ⟨w.regex ++ w'.regex, w.magic || w'.magic⟩⟩

/-- The alternatives of what several stretches are written as. -/
def Fragment.join : List Fragment → Regex
  | [] => .done
  | w :: ws => alternatives w.regex (ws.map Fragment.regex)

section Walks

variable (cs : List Char) (pairs : List (Nat × Nat))

/-- The stretches between the delimiters of one that ends at `stop`, from place `i` on; the first of
    them began at `start`. The first number bounds the rounds. -/
def cutInside? (d : Char) (stop : Nat) : Nat → Nat → Nat → Option (List (Nat × Nat))
  | 0, _, _ => none
  | n + 1, start, i =>
    if stop ≤ i then some [(start, stop)]
    else
      cs[i]?.bind fun c =>
        if c = '\\' then cutInside? d stop n start (i + 2)
        else
          match partner? pairs i with
          | some j => cutInside? d stop n start (j + 1)
          | none =>
            if c = d then (cutInside? d stop n (i + 1) (i + 1)).map ((start, i) :: ·)
            else cutInside? d stop n start (i + 1)

/-- The place of the last star of a run, from the place of one of them on. -/
def lastStar? (stop : Nat) : Nat → Nat → Option Nat
  | 0, _ => none
  | n + 1, i =>
    (charBefore? cs stop (i + 1)).bind fun next =>
      if next = some '*' then lastStar? stop n (i + 1) else some i

section

variable (translate : Nat → Nat → Option Fragment) (n : Nat)

/-- What the alternatives of a group are written as, given how stretches are. -/
def groupInside? (d : Char) (opener closer : Nat) : Option (List Fragment) :=
  (cutInside? cs pairs d closer n (opener + 1) (opener + 1)).bind fun spans =>
    spans.mapM fun s => translate s.1 s.2

/-- What a group in braces is written as. -/
def braceInside? (opener closer : Nat) : Option Fragment :=
  (cutInside? cs pairs ',' closer n (opener + 1) (opener + 1)).bind fun spans =>
    if 1 < spans.length then
      (spans.mapM fun s => translate s.1 s.2).map fun ws => ⟨grouped (Fragment.join ws) .once, true⟩
    else
      match Range.expand? (slice cs (opener + 1, closer)) with
      | some (v :: vs) => some ⟨grouped (alternatives (.chars v) (vs.map Regex.chars)) .once, true⟩
      | range =>
        (translate (opener + 1) closer).map fun w =>
          ⟨.char '{' (w.regex ++ .char '}' .done), range.isSome || w.magic⟩

/-- What stands between an opener and its partner is written as. -/
def pairInside? (c : Char) (opener closer : Nat) : Option Fragment :=
  if c = '[' then
    (Bracket.itemInside? cs n opener closer).map fun s => ⟨.single s .once .done, true⟩
  else if c = '{' then braceInside? cs pairs translate n opener closer
  else
    (groupInside? cs pairs translate n '|' opener closer).map fun ws =>
      ⟨grouped (Fragment.join ws) .once, true⟩

/-- One round of writing a stretch: what stands at place `i`, given the character there and the next
    one, and then the rest. -/
def roundInside? (c : Char) (next : Option Char) (i stop : Nat) : Option Fragment :=
  if c = '\\' then
    match next with
    | some x => (translate (i + 2) stop).map fun w => ⟨.char x w.regex, w.magic⟩
    | none => (translate (i + 1) stop).map fun w => ⟨.char c w.regex, w.magic⟩
  else
    match if isGroupMark c ∧ next = some '(' then partner? pairs (i + 1) else none with
    | some j =>
      (groupInside? cs pairs translate n '|' (i + 1) j).bind fun ws =>
        (translate (j + 1) stop).map fun w =>
          ⟨marked c (Fragment.join ws) ⟨w.regex, slice cs (j + 1, stop)⟩, true⟩
    | none =>
      if c = '*' then
        (lastStar? cs stop n i).bind fun k =>
          (translate (k + 1) stop).map fun w => ⟨.single .notSeparator .star w.regex, true⟩
      else
        match if c ∈ ['[', '{', '('] then partner? pairs i else none with
        | some j =>
          (pairInside? cs pairs translate n c i j).bind fun front =>
            (translate (j + 1) stop).map fun w => front ++ w
        | none => (translate (i + 1) stop).map fun w => ⟨bare c w.regex, c == '?' || w.magic⟩

/-- The guard in front of a segment. -/
def guardInside? (start stop : Nat) : Option Regex :=
  cs[start]?.bind fun c => (charBefore? cs stop (start + 1)).bind fun next =>
    match if isGroupMark c ∧ next = some '(' then partner? pairs (start + 1) else none with
    | some j =>
      (cutInside? cs pairs '|' j n (start + 2) (start + 2)).bind fun spans =>
        let dotted := spans.filter fun s => cs[s.1]? == some '.'
        if c = '!' ∨ dotted = [] then some (.notDot .done)
        else
          (dotted.mapM fun s => translate s.1 s.2).map fun ws =>
            grouped (.notDot (.bar (.group .ahead (Fragment.join ws) .once .done))) .once
    | none =>
      some (if c = '*' ∨ c = '?' ∨ c = '[' ∧ (partner? pairs start).isSome then .notDot .done
        else .done)

end

/-- The regex of a stretch that ends at `stop`, from place `i` on. -/
def translateInside? : Nat → Nat → Nat → Option Fragment
  | 0, _, _ => none
  | n + 1, i, stop =>
    if stop ≤ i then some {}
    else
      cs[i]?.bind fun c => (charBefore? cs stop (i + 1)).bind fun next =>
        roundInside? cs pairs (translateInside? n) n c next i stop

/-- The regex of a segment, and what kind of segment it is. -/
def segmentInside? (dot : Bool) (n : Nat) (span : Nat × Nat) : Option Segment :=
  let raw := slice cs span
  if raw = [] then some ⟨.done, .empty, raw, false⟩
  else if raw.length > 1 ∧ raw.all (· == '*') then
    some ⟨.wholeSegment dot, .globstar, raw, false⟩
  else
    (if dot then some .done
      else guardInside? cs pairs (translateInside? cs pairs n) n span.1 span.2).bind fun guard =>
      (translateInside? cs pairs n span.1 span.2).map fun w =>
        if w.magic then ⟨guard ++ w.regex, .glob, raw, false⟩ else ⟨w.regex, .literal, raw, false⟩

end Walks

/-! ## 3. Trees in their places -/

/-- The tree stands at place `i`: its text does, the pairs there are its own, and a bare backslash
    stands at its end only. -/
structure Placed (cs : List Char) (pairs : List (Nat × Nat)) (i : Nat) (g : Glob) : Prop where
  inside : i + g.length ≤ cs.length
  stands : ∃ after, cs.drop i = g.text ++ after
  partner : ∀ j, i ≤ j → j < i + g.length → partner? pairs j = partner? (g.pairs i) j
  last : BackslashLast g.toMarks

/-- What stands between marks may stand alone. -/
theorem BackslashLast.of_infix {front ms back : List Mark}
    (h : BackslashLast (front ++ ms ++ back)) : BackslashLast ms := by
  intro front' back' hms
  have hback := h (front ++ front') (back' ++ back) (by simp [hms])
  exact (List.append_eq_nil_iff.mp hback).1

/-- Of what stands behind a place the pairs say nothing about it. -/
theorem partner?_append_left {pairs pairs' : List (Nat × Nat)} {i : Nat}
    (h : ∀ p ∈ pairs', p.1 ≠ i) : partner? (pairs ++ pairs') i = partner? pairs i := by
  have hnone : pairs'.find? (·.1 == i) = none := by simpa using h
  rw [partner?, List.find?_append, hnone, Option.or_none, partner?]

/-- The tree of a text stands at its beginning. -/
theorem placed_read (cs : List Char) : Placed cs (pairsOf cs) 0 (read cs) where
  inside := by rw [← length_text, text_read, Nat.zero_add]
  stands := ⟨[], by rw [text_read, List.append_nil, List.drop_zero]⟩
  partner _ _ _ := rfl
  last := by
    rw [toMarks_read]
    exact backslashLast_marksOf cs

section Placed

variable {cs : List Char} {pairs : List (Nat × Nat)} {i : Nat} {g rest : Glob} {c d : Char}

/-- Of two trees one behind the other each stands in its place. -/
theorem Placed.of_append {r s : Glob} (h : Placed cs pairs i (r ++ s)) :
    Placed cs pairs i r ∧ Placed cs pairs (i + r.length) s := by
  obtain ⟨hinside, ⟨after, hstands⟩, hpartner, hlast⟩ := h
  rw [length_append] at hinside
  rw [text_append] at hstands
  simp only [length_append, pairs_append] at hpartner
  rw [toMarks_append] at hlast
  refine ⟨⟨by omega, ⟨s.text ++ after, ?_⟩, fun j hj hj' => ?_, ?_⟩,
    ⟨by omega, ⟨after, ?_⟩, fun j hj hj' => ?_, hlast.of_append _⟩⟩
  · rw [hstands, List.append_assoc]
  · rw [hpartner j hj (by omega)]
    refine partner?_append_left fun p hp => ?_
    have := mem_pairs_inside hp
    omega
  · exact @BackslashLast.of_infix [] r.toMarks s.toMarks hlast
  · rw [← List.drop_drop, hstands, List.append_assoc, ← length_text, List.drop_left]
  · rw [hpartner j (by omega) (by omega)]
    refine partner?_append _ fun p hp => ?_
    have := mem_pairs_inside hp
    omega

theorem Placed.behind_char (h : Placed cs pairs i (char c rest)) : Placed cs pairs (i + 1) rest :=
  (Placed.of_append (r := .char c .done) h).2

theorem Placed.behind_escaped (h : Placed cs pairs i (escaped c rest)) :
    Placed cs pairs (i + 2) rest :=
  (Placed.of_append (r := .escaped c .done) h).2

theorem Placed.behind_bracket {body : List Char} (h : Placed cs pairs i (bracket body rest)) :
    Placed cs pairs (i + body.length + 2) rest := by
  have hrest := (Placed.of_append (r := .bracket body .done) h).2
  rwa [length, length, Nat.add_zero, ← Nat.add_assoc] at hrest

theorem Placed.within_group {k : Grouping} {body : Glob}
    (h : Placed cs pairs i (group k body rest)) :
    Placed cs pairs (i + 1) body ∧ Placed cs pairs (i + body.length + 2) rest := by
  obtain ⟨⟨hinside, ⟨after, hstands⟩, hpartner, hlast⟩, hrest⟩ :=
    Placed.of_append (r := .group k body .done) (s := rest) h
  rw [length, length, Nat.add_zero] at hinside
  rw [length, length, Nat.add_zero, ← Nat.add_assoc] at hrest
  refine ⟨⟨by omega, ⟨k.closer :: after, ?_⟩, fun j hj hj' => ?_, ?_⟩, hrest⟩
  · refine (getElem?_of_drop (c := k.opener) ?_).2
    rw [hstands]
    simp [text]
  · rw [hpartner j (by omega) (by rw [length, length]; omega), Glob.pairs, partner?_cons,
      if_neg (by simp only; omega)]
    exact partner?_append_left (List.forall_mem_nil _)
  · exact @BackslashLast.of_infix [.char k.opener] body.toMarks [.char k.closer] hlast

/-- A bare character has no partner. -/
theorem Placed.partner_char (h : Placed cs pairs i (char c rest)) : partner? pairs i = none := by
  rw [h.partner i (Nat.le_refl i) (by rw [length]; omega)]
  refine partner?_eq_none.mpr fun p hp => ?_
  have := mem_pairs_inside (show p ∈ rest.pairs (i + 1) from hp)
  omega

theorem Placed.partner_bracket {body : List Char} (h : Placed cs pairs i (bracket body rest)) :
    partner? pairs i = some (i + body.length + 1) := by
  rw [h.partner i (Nat.le_refl i) (by rw [length]; omega), Glob.pairs, partner?_cons, if_pos rfl]

theorem Placed.partner_group {k : Grouping} {body : Glob}
    (h : Placed cs pairs i (group k body rest)) :
    partner? pairs i = some (i + body.length + 1) := by
  rw [h.partner i (Nat.le_refl i) (by rw [length]; omega), Glob.pairs, partner?_cons, if_pos rfl]

/-- A tree that begins with a bare backslash has nothing behind it. -/
theorem Placed.eq_done_of_backslash (h : Placed cs pairs i (char '\\' rest)) : rest = .done :=
  eq_done_of_toMarks (h.last [] rest.toMarks rfl)

theorem Placed.slice_eq (h : Placed cs pairs i g) : slice cs (i, i + g.length) = g.text := by
  obtain ⟨after, hstands⟩ := h.stands
  rw [← length_text]
  exact slice_of_drop hstands

/-- What comes next in front of the end of a tree. -/
theorem Placed.charBefore?_eq (h : Placed cs pairs i g) :
    charBefore? cs (i + g.length) i = some g.text.head? := by
  obtain ⟨after, hstands⟩ := h.stands
  rw [← length_text]
  exact Wildcard.charBefore?_eq hstands

end Placed

/-! ## 4. Cutting a stretch -/

section Cutting

variable {cs : List Char} {pairs : List (Nat × Nat)} {d : Char}

/-- Places within a stretch that are to be passed over are passed over. -/
theorem jumpSpansFrom_passed {stop start i k : Nat} (hstop : stop ≤ cs.length) (hk : i + k ≤ stop) :
    jumpSpansFrom pairs d k start i ((cs.drop i).take (stop - i)) =
      jumpSpansFrom pairs d 0 start (i + k) ((cs.drop (i + k)).take (stop - (i + k))) := by
  have hrest : ((cs.drop i).take (stop - i)).drop k =
      (cs.drop (i + k)).take (stop - (i + k)) := by
    rw [List.drop_take, List.drop_drop, Nat.sub_add_eq]
  have hlength : (((cs.drop i).take (stop - i)).take k).length = k := by
    rw [List.length_take, List.length_take, List.length_drop]
    omega
  have hpassed := @jumpSpansFrom_append pairs d start i (((cs.drop i).take (stop - i)).take k)
    (((cs.drop i).take (stop - i)).drop k)
  rwa [List.take_append_drop, hlength, hrest] at hpassed

/-- **Cutting by places** is walking over the text of a stretch with jumps, as long as no pair
    reaches out of it. -/
theorem cutInside?_eq_jumpSpansFrom {stop : Nat} (hstop : stop ≤ cs.length) {n start i : Nat}
    (hin : ∀ j k, i ≤ j → j < stop → partner? pairs j = some k → j < k ∧ k < stop)
    (hi : i ≤ stop) (hn : stop < i + n) :
    cutInside? cs pairs d stop n start i =
      some (jumpSpansFrom pairs d 0 start i ((cs.drop i).take (stop - i))) := by
  induction n generalizing start i with
  | zero => omega
  | succ n ih =>
    rw [cutInside?]
    rcases Nat.lt_or_eq_of_le hi with hlt | rfl
    · have hlength : i < cs.length := Nat.lt_of_lt_of_le hlt hstop
      have htext : (cs.drop i).take (stop - i) =
          cs[i] :: (cs.drop (i + 1)).take (stop - (i + 1)) := by
        rw [List.drop_eq_getElem_cons hlength, ← List.take_succ_cons]
        congr 1
        omega
      have hrest {start k : Nat} (hk : i < k) (hk' : k ≤ stop) :
          cutInside? cs pairs d stop n start k =
            some (jumpSpansFrom pairs d (k - (i + 1)) start (i + 1)
              ((cs.drop (i + 1)).take (stop - (i + 1)))) := by
        have hplace : i + 1 + (k - (i + 1)) = k := by omega
        rw [jumpSpansFrom_passed hstop (by omega), hplace]
        exact ih (fun j k' hj => hin j k' (by omega)) hk' (by omega)
      rw [if_neg (by omega), List.getElem?_eq_getElem hlength, Option.bind_some, htext,
        jumpSpansFrom]
      by_cases hback : cs[i] = '\\'
      · rw [if_pos hback, if_pos hback]
        -- What a backslash escapes is passed over; at the end of the stretch there is nothing.
        rcases Nat.lt_or_eq_of_le (show i + 1 ≤ stop from hlt) with hnext | rfl
        · rw [hrest (by omega) hnext]
          congr 2
          omega
        · obtain ⟨n, rfl⟩ : ∃ m, n = m + 1 := ⟨n - 1, by omega⟩
          rw [cutInside?, if_pos (by omega), Nat.sub_self]
          rfl
      · rw [if_neg hback, if_neg hback]
        cases hpartner : partner? pairs i with
        | some j =>
          obtain ⟨hij, hj⟩ := hin i j (Nat.le_refl i) hlt hpartner
          simp only
          rw [hrest (by omega) hj]
          congr 2
          omega
        | none =>
          have hstep {start : Nat} := @hrest start (i + 1) (Nat.lt_succ_self i) hlt
          simp only [Nat.sub_self] at hstep
          simp only [hstep]
          split <;> rfl
    · rw [if_pos (Nat.le_refl i), Nat.sub_self]
      rfl

/-- A tree that is cut into more than one piece is the first of them, a delimiter, and what the
    others are cut from. -/
theorem exists_rest_of_splitOn {g first next : Glob} {others : List Glob}
    (h : g.splitOn d = (first, next :: others)) :
    ∃ rest, g = first ++ char d rest ∧ rest.splitOn d = (next, others) := by
  induction g generalizing first with
  | done => cases h
  | char c rest ih =>
    have hsplit : (char c rest).splitOn d =
        if c = d then (done, (rest.splitOn d).1 :: (rest.splitOn d).2)
        else (char c (rest.splitOn d).1, (rest.splitOn d).2) := rfl
    rw [hsplit] at h
    split at h
    · rename_i hc
      obtain ⟨rfl, hrest⟩ := Prod.mk.inj h
      obtain ⟨hnext, hothers⟩ := List.cons.inj hrest
      exact ⟨rest, by rw [hc]; rfl, Prod.ext hnext hothers⟩
    · obtain ⟨rfl, hrest⟩ := Prod.mk.inj h
      obtain ⟨rest', hcut, hothers⟩ := ih (Prod.ext rfl hrest)
      exact ⟨rest', congrArg (char c) hcut, hothers⟩
  | escaped c rest ih =>
    obtain ⟨rfl, hrest⟩ := Prod.mk.inj h
    obtain ⟨rest', hcut, hothers⟩ := ih (Prod.ext rfl hrest)
    exact ⟨rest', congrArg (escaped c) hcut, hothers⟩
  | bracket body rest ih =>
    obtain ⟨rfl, hrest⟩ := Prod.mk.inj h
    obtain ⟨rest', hcut, hothers⟩ := ih (Prod.ext rfl hrest)
    exact ⟨rest', congrArg (bracket body) hcut, hothers⟩
  | group k body rest _ ih =>
    obtain ⟨rfl, hrest⟩ := Prod.mk.inj h
    obtain ⟨rest', hcut, hothers⟩ := ih (Prod.ext rfl hrest)
    exact ⟨rest', congrArg (group k body) hcut, hothers⟩

/-- A stretch and the piece that stands there, up to a delimiter or to `stop`. -/
structure Holds (cs : List Char) (pairs : List (Nat × Nat)) (d : Char) (stop : Nat) (s : Nat × Nat)
    (p : Glob) : Prop where
  ends : s.2 = s.1 + p.length
  placed : Placed cs pairs s.1 p
  behind : s.2 = stop ∨ cs[s.2]? = some d

/-- **The spans of the pieces of a tree** hold these pieces. -/
theorem Placed.holds_spansOf {i : Nat} {g : Glob} (h : Placed cs pairs i g) :
    List.Forall₂ (Holds cs pairs d (i + g.length)) (spansOf i i (g.splitOn d).1 (g.splitOn d).2)
      (g.pieces d) := by
  unfold pieces
  generalize hsplit : g.splitOn d = pieces
  obtain ⟨first, others⟩ := pieces
  induction others generalizing g i first with
  | nil =>
    have hbare : g.hasBare d = false := splitOn_snd_eq_nil.mp (by rw [hsplit])
    rw [splitOn_of_not_hasBare hbare] at hsplit
    cases hsplit
    exact .cons ⟨rfl, h, .inl rfl⟩ .nil
  | cons next others ih =>
    obtain ⟨rest, rfl, hrest⟩ := exists_rest_of_splitOn hsplit
    obtain ⟨hfirst, hbehind⟩ := h.of_append
    have hothers := ih hbehind.behind_char next hrest
    have hstop : i + first.length + 1 + rest.length = i + (first ++ char d rest).length := by
      rw [length_append, length]
      omega
    rw [hstop] at hothers
    refine .cons ⟨rfl, hfirst, .inr ?_⟩ hothers
    obtain ⟨after, hafter⟩ := hbehind.stands
    exact (getElem?_of_drop hafter).1

/-- What is found at every span of the pieces is found at all of them. -/
theorem mapM_of_holds {β : Type} {f : Nat × Nat → Option β} {v : Glob → β} {stop : Nat}
    {spans : List (Nat × Nat)} {ps : List Glob}
    (h : List.Forall₂ (Holds cs pairs d stop) spans ps)
    (hf : ∀ s, ∀ p ∈ ps, Holds cs pairs d stop s p → f s = some (v p)) :
    spans.mapM f = some (ps.map v) := by
  induction h with
  | nil => rfl
  | cons hs _ ih =>
    have hrest := ih fun s p hp => hf s p (List.mem_cons_of_mem _ hp)
    simp [hf _ _ List.mem_cons_self hs, hrest]

/-- **Cutting a stretch where a tree stands** gives the spans of its pieces. -/
theorem Placed.cutInside?_eq {i n : Nat} {g : Glob} (h : Placed cs pairs i g) (hd : d ≠ '\\')
    (hn : g.length < n) :
    cutInside? cs pairs d (i + g.length) n i i =
      some (spansOf i i (g.splitOn d).1 (g.splitOn d).2) := by
  obtain ⟨after, hstands⟩ := h.stands
  have htext : (cs.drop i).take (i + g.length - i) = g.text := by
    rw [Nat.add_sub_cancel_left, hstands, ← length_text, List.take_left]
  rw [cutInside?_eq_jumpSpansFrom h.inside ?_ (Nat.le_add_right i _) (by omega), htext,
    jumpSpansFrom_text hd g h.last h.partner]
  intro j k hj hj' hpartner
  rw [h.partner j hj hj'] at hpartner
  have hinside := mem_pairs_inside (mem_of_partner? hpartner)
  exact hinside.2

end Cutting

/-! ## 5. Writing a stretch -/

/-- What a piece between delimiters is written as. -/
def fragment (d : Char) (p : Glob) : Fragment := ⟨p.alternative d, p.isMagic⟩

theorem join_fragments (hd : isGroupMark d = false) (body : Glob) :
    Fragment.join ((body.pieces d).map (fragment d)) = Part.join (parts d false body) := by
  rw [join_parts hd, pieces, List.map_cons, Fragment.join, List.map_map]
  rfl

section Writing

variable {cs : List Char} {pairs : List (Nat × Nat)} {i n : Nat} {g body rest : Glob} {c d : Char}
  {translate : Nat → Nat → Option Fragment}

/-- Stretches where trees of fewer than `n` characters stand are written as these trees are. -/
def Writes (cs : List Char) (pairs : List (Nat × Nat)) (translate : Nat → Nat → Option Fragment)
    (n : Nat) : Prop :=
  ∀ {i : Nat} {g : Glob} {d : Char}, Placed cs pairs i g → isGroupMark d = false →
    g.hasBare d = false → g.length < n → translate i (i + g.length) = some (g.fragment d)

/-- The pieces of a tree are written in their places. -/
theorem Writes.mapM (hw : Writes cs pairs translate n) (hd : isGroupMark d = false)
    (hn : body.length < n) {stop : Nat} {spans : List (Nat × Nat)} {ps : List Glob}
    (hps : ∀ p ∈ ps, p ∈ body.pieces d) (h : List.Forall₂ (Holds cs pairs d stop) spans ps) :
    (spans.mapM fun s => translate s.1 s.2) = some (ps.map (fragment d)) := by
  refine mapM_of_holds h fun s p hp hholds => ?_
  rw [hholds.ends]
  exact hw hholds.placed hd ((pieces_spec d body).1 p (hps p hp))
    (Nat.lt_of_le_of_lt (length_le_of_mem_pieces (hps p hp)) hn)

/-- **The contents of a group** are written as the pieces of its tree. -/
theorem Writes.groupInside?_eq (hw : Writes cs pairs translate n) (hd : isGroupMark d = false)
    (hback : d ≠ '\\') (h : Placed cs pairs (i + 1) body) (hn : body.length < n) :
    groupInside? cs pairs translate n d i (i + 1 + body.length) =
      some ((body.pieces d).map (fragment d)) := by
  rw [groupInside?, h.cutInside?_eq hback hn, Option.bind_some]
  exact hw.mapM hd hn (fun _ hp => hp) h.holds_spansOf

/-- What stands in front of the rest of a piece is written so, whatever the rest is. -/
def Fragment.IsFront (w : Fragment) (f : Glob → Glob) : Prop :=
  ∀ d rest, (f rest).fragment d = w ++ rest.fragment d

/-- What a group in braces is written as. -/
def braced (body : Glob) : Fragment :=
  if body.hasBare ',' then ⟨grouped (Part.join (parts ',' false body)) .once, true⟩
  else
    match Range.expand? body.text with
    | some (v :: vs) => ⟨grouped (alternatives (.chars v) (vs.map Regex.chars)) .once, true⟩
    | range => ⟨.char '{' (body.alternative ',' ++ .char '}' .done), range.isSome || body.isMagic⟩

theorem isFront_braced (body : Glob) : (braced body).IsFront (group .braces body) := by
  intro d rest
  have hone : (parts ',' false body).2 = [] ↔ body.hasBare ',' = false := by
    rw [parts_pieces rfl, List.map_eq_nil_iff, splitOn_snd_eq_nil]
  rw [fragment, alternative, parts, isMagic, braced]
  cases hcomma : body.hasBare ',' with
  | true =>
    rw [if_pos (by rw [Ne, hone, hcomma]; decide), if_pos rfl]
    rfl
  | false =>
    rw [if_neg (by rw [hone.mpr hcomma]; decide), if_neg Bool.false_ne_true]
    cases Range.expand? body.text with
    | none => rfl
    | some values => cases values <;> rfl

/-- **A group in braces** is written by its places. -/
theorem Writes.braceInside?_eq (hw : Writes cs pairs translate n)
    (h : Placed cs pairs (i + 1) body) (hn : body.length < n) :
    braceInside? cs pairs translate n i (i + 1 + body.length) = some (braced body) := by
  have hholds : List.Forall₂ (Holds cs pairs ',' (i + 1 + body.length)) _ (body.pieces ',') :=
    h.holds_spansOf
  have hlength := hholds.length_eq
  have hone : (body.splitOn ',').2 = [] ↔ body.hasBare ',' = false := splitOn_snd_eq_nil
  rw [pieces, List.length_cons] at hlength
  rw [braceInside?, h.cutInside?_eq (by decide) hn, Option.bind_some, hlength, h.slice_eq, braced]
  cases hcomma : body.hasBare ',' with
  | true =>
    have hmany : 0 < (body.splitOn ',').2.length := by
      rw [List.length_pos_iff, Ne, hone, hcomma]
      decide
    rw [if_pos (Nat.succ_lt_succ hmany), if_pos rfl, hw.mapM rfl hn (fun _ hp => hp) hholds,
      ← join_fragments rfl]
    rfl
  | false =>
    rw [if_neg (by simp [hone.mpr hcomma]), if_neg Bool.false_ne_true, hw h rfl hcomma hn]
    cases Range.expand? body.text with
    | none => rfl
    | some values => cases values <;> rfl

/-- **What stands between an opener and its partner** is written by their places. -/
theorem Placed.exists_pairInside?_bracket {members : List Char}
    (h : Placed cs pairs i (bracket members rest)) (hn : members.length < n) :
    ∃ w, pairInside? cs pairs translate n '[' i (i + members.length + 1) = some w ∧
      w.IsFront (bracket members) := by
  obtain ⟨after, hstands⟩ := h.stands
  have hclass : cs.drop i = '[' :: members ++ ']' :: (rest.text ++ after) := by
    rw [hstands, text, List.append_assoc, List.cons_append]
    rfl
  rw [pairInside?, if_pos rfl, Bracket.itemInside?_eq hn hclass]
  refine ⟨_, rfl, fun d rest => ?_⟩
  rw [fragment, alternative, parts]
  rfl

theorem Writes.exists_pairInside?_group (hw : Writes cs pairs translate n) (k : Grouping)
    (h : Placed cs pairs (i + 1) body) (hn : body.length < n) :
    ∃ w, pairInside? cs pairs translate n k.opener i (i + body.length + 1) = some w ∧
      w.IsFront (group k body) := by
  rw [Nat.add_right_comm]
  cases k with
  | braces => exact ⟨braced body, hw.braceInside?_eq h hn, isFront_braced body⟩
  | parens =>
    rw [pairInside?, if_neg (by decide), if_neg (by decide),
      hw.groupInside?_eq rfl (by decide) h hn]
    refine ⟨_, rfl, fun d rest => ?_⟩
    simp only [join_fragments (show isGroupMark '|' = false from rfl)]
    rw [fragment, alternative, parts]
    rfl

/-- A star behind a star changes nothing. -/
theorem regex_parts_afterStar (hd : d ≠ '*') (rest : Glob) :
    (parts d true (char '*' rest)).1.regex = (parts d true rest).1.regex := by
  have hplace (ps : Part × List Part) : (place d true '*' ps).1.regex = ps.1.regex := by
    rw [place_eq, if_neg hd.symm]
    rfl
  by_cases hopens : rest.OpensGroup
  · obtain ⟨body, rest', rfl⟩ := opensGroup_iff.mp hopens
    rw [parts, if_neg (by decide), hplace, parts_group d true]
  · rw [parts_char d true '*' hopens, hplace]
    rfl

theorem exists_char_of_head? (h : g.text.head? = some '*') : ∃ rest, g = char '*' rest := by
  cases g with
  | done => cases h
  | char c rest =>
    cases h
    exact ⟨rest, rfl⟩
  | escaped c rest => exact absurd (Option.some.inj h) (by decide)
  | bracket body rest => exact absurd (Option.some.inj h) (by decide)
  | group k body rest => cases k <;> exact absurd (Option.some.inj h) (by decide)

/-- The run of stars behind a star is passed over, and what is behind the run is written as behind
    the star. -/
theorem exists_lastStar? (h : Placed cs pairs (i + 1) g) (hd : d ≠ '*')
    (hbare : g.hasBare d = false) (hn : g.length < n) :
    ∃ k rest, lastStar? cs (i + 1 + g.length) n i = some k ∧ Placed cs pairs (k + 1) rest ∧
      k + 1 + rest.length = i + 1 + g.length ∧ rest.length ≤ g.length ∧
        rest.hasBare d = false ∧ (parts d true g).1.regex = rest.alternative d := by
  induction n generalizing g i with
  | zero => omega
  | succ n ih =>
    rw [lastStar?, h.charBefore?_eq, Option.bind_some]
    by_cases hstar : g.text.head? = some '*'
    · obtain ⟨rest, rfl⟩ := exists_char_of_head? hstar
      obtain ⟨-, hbare⟩ := Bool.or_eq_false_iff.mp hbare
      obtain ⟨k, rest', hk, hplaced, hstop, hle, hbare', hregex⟩ :=
        ih h.behind_char hbare (Nat.lt_of_succ_lt_succ hn)
      have hplace : i + 1 + (char '*' rest).length = i + 1 + 1 + rest.length := by
        rw [length]
        omega
      rw [if_pos hstar, hplace, regex_parts_afterStar hd]
      exact ⟨k, rest', hk, hplaced, hstop, Nat.le_succ_of_le hle, hbare', hregex⟩
    · rw [if_neg hstar, parts_afterStar d hstar]
      exact ⟨i, g, rfl, h, rfl, Nat.le_refl _, hbare, rfl⟩

/-- Where a tree stands, looking at its place and at the next one finds the beginning of its text. -/
theorem Placed.look {rest : List Char} (h : Placed cs pairs i g) (htext : g.text = c :: rest) :
    cs[i]? = some c ∧ charBefore? cs (i + g.length) (i + 1) = some rest.head? := by
  obtain ⟨after, hstands⟩ := h.stands
  rw [htext] at hstands
  obtain ⟨hc, hbehind⟩ := getElem?_of_drop hstands
  have hstop : i + g.length = i + 1 + rest.length := by
    rw [← length_text, htext, List.length_cons]
    omega
  rw [hstop]
  exact ⟨hc, Wildcard.charBefore?_eq hbehind⟩

/-- A round where a tree stands sees the beginning of its text. -/
theorem translateInside?_round {rest : List Char} (h : Placed cs pairs i g)
    (htext : g.text = c :: rest) :
    translateInside? cs pairs (n + 1) i (i + g.length) =
      roundInside? cs pairs (translateInside? cs pairs n) n c rest.head? i (i + g.length) := by
  obtain ⟨hc, hnext⟩ := h.look htext
  have hlength : 0 < g.length := by
    rw [← length_text, htext]
    exact Nat.succ_pos _
  rw [translateInside?, if_neg (by omega), hc, Option.bind_some, hnext, Option.bind_some]

/-- Where no group in parentheses begins, a parenthesis has no partner. -/
theorem Placed.partner_of_not_opensGroup (h : Placed cs pairs i g) (hopens : ¬ g.OpensGroup)
    (hhead : g.text.head? = some '(') : partner? pairs i = none := by
  cases g with
  | done => cases hhead
  | char c rest => exact h.partner_char
  | escaped c rest => exact absurd (Option.some.inj hhead) (by decide)
  | bracket body rest => exact absurd (Option.some.inj hhead) (by decide)
  | group k body rest =>
    cases k with
    | braces => exact absurd (Option.some.inj hhead) (by decide)
    | parens => exact absurd trivial hopens

/-- Where no marked group begins, none is found. -/
theorem Placed.partner_of_not_marked (h : Placed cs pairs i (char c rest))
    (hplain : ¬ (isGroupMark c = true ∧ rest.OpensGroup)) :
    (if isGroupMark c = true ∧ rest.text.head? = some '(' then partner? pairs (i + 1) else none) =
      none := by
  split
  · rename_i hmark
    exact h.behind_char.partner_of_not_opensGroup (fun hopens => hplain ⟨hmark.1, hopens⟩) hmark.2
  · rfl

section Rounds

variable (hw : Writes cs pairs translate n) (hd : isGroupMark d = false)

include hw hd

/-- A group behind its mark is written with what is behind it. -/
theorem Writes.round_marked (h : Placed cs pairs i (char c (group .parens body rest)))
    (hc : isGroupMark c = true) (hbare : rest.hasBare d = false)
    (hn : (char c (group .parens body rest)).length ≤ n) :
    roundInside? cs pairs translate n c (some '(') i
        (i + (char c (group .parens body rest)).length) =
      some ((char c (group .parens body rest)).fragment d) := by
  have hgroup := h.behind_char
  obtain ⟨hbody, hrest⟩ := hgroup.within_group
  rw [length, length] at hn
  have hback : c ≠ '\\' := by
    rintro rfl
    cases hc
  have hcloser : i + 1 + body.length + 1 = i + 1 + 1 + body.length := by omega
  have hstop : i + (char c (group .parens body rest)).length =
      i + 1 + body.length + 2 + rest.length := by
    rw [length, length]
    omega
  have hcontents : groupInside? cs pairs translate n '|' (i + 1) (i + 1 + body.length + 1) =
      some ((body.pieces '|').map (fragment '|')) := by
    rw [hcloser]
    exact hw.groupInside?_eq rfl (by decide) hbody (by omega)
  have hfragment : (char c (group .parens body rest)).fragment d =
      ⟨marked c (Part.join (parts '|' false body)) ⟨rest.alternative d, rest.text⟩, true⟩ := by
    have hpart : (parts d false rest).1 = ⟨rest.alternative d, rest.text⟩ := by
      rw [← text_fst_parts false hbare]
      rfl
    rw [fragment, alternative, parts, if_pos (by simp [hc]), ← hpart]
    simp [isMagic]
  rw [roundInside?, if_neg hback, if_pos ⟨hc, rfl⟩, hgroup.partner_group]
  simp only
  rw [hcontents, hstop, hrest.slice_eq, hw hrest hd hbare (by omega), hfragment,
    ← join_fragments (show isGroupMark '|' = false from rfl)]
  rfl

/-- A star that marks no group is written as a wildcard, with the run of stars behind it. -/
theorem Writes.round_star (h : Placed cs pairs i (char '*' rest)) (hopens : ¬ rest.OpensGroup)
    (hbare : rest.hasBare d = false) (hn : (char '*' rest).length ≤ n) :
    roundInside? cs pairs translate n '*' rest.text.head? i (i + (char '*' rest).length) =
      some ((char '*' rest).fragment d) := by
  have hstar : d ≠ '*' := by
    rintro rfl
    cases hd
  rw [length] at hn
  have hstop : i + (char '*' rest).length = i + 1 + rest.length := by
    rw [length]
    omega
  obtain ⟨k, rest', hk, hplaced, hend, hle, hbare', hregex⟩ :=
    exists_lastStar? (n := n) h.behind_char hstar hbare (by omega)
  have hfragment : (char '*' rest).fragment d =
      ⟨.single .notSeparator .star (rest'.alternative d), true⟩ := by
    rw [fragment, alternative, parts_char d false '*' hopens, place_eq, if_neg hstar.symm,
      ← hregex]
    rfl
  unfold roundInside?
  rw [if_neg (by decide), h.partner_of_not_marked fun hmark => hopens hmark.2]
  simp only [if_true]
  rw [hstop, hk, Option.bind_some, ← hend, hw hplaced hd hbare' (by omega), hfragment]
  rfl

/-- Any other bare character is written as itself. -/
theorem Writes.round_char (h : Placed cs pairs i (char c rest)) (hstar : c ≠ '*')
    (hplain : ¬ (isGroupMark c = true ∧ rest.OpensGroup)) (hcd : c ≠ d)
    (hbare : rest.hasBare d = false) (hn : (char c rest).length ≤ n) :
    roundInside? cs pairs translate n c rest.text.head? i (i + (char c rest).length) =
      some ((char c rest).fragment d) := by
  have hrest := h.behind_char
  rw [length] at hn
  have hstop : i + (char c rest).length = i + 1 + rest.length := by
    rw [length]
    omega
  have hfragment : (char c rest).fragment d =
      ⟨bare c (rest.alternative d), c == '?' || rest.isMagic⟩ := by
    have hparts : parts d false (char c rest) = place d false c (parts d false rest) := by
      by_cases hopens : rest.OpensGroup
      · exact parts_unmarked d false (Bool.eq_false_iff.mpr fun hc => hplain ⟨hc, hopens⟩) rest
      · rw [parts_char d false c hopens, beq_false_of_ne hstar]
    rw [fragment, alternative, hparts, place_eq, if_neg hcd, isMagic, beq_false_of_ne hstar]
    rfl
  have hnext := hw hrest hd hbare (by omega)
  unfold roundInside?
  rw [hstop, hfragment]
  by_cases hback : c = '\\'
  · subst hback
    obtain rfl := h.eq_done_of_backslash
    simp only [if_true, hnext]
    rfl
  · rw [if_neg hback, h.partner_of_not_marked hplain, h.partner_char, ite_self]
    simp only [if_neg hstar, hnext]
    rfl

/-- An opener that has a partner is written with all up to the partner, and then what is behind. -/
theorem Writes.round_pair {f : Glob → Glob} {w : Fragment} {next : Option Char} {j : Nat}
    (hc : c ∈ ['[', '{', '(']) (hpartner : partner? pairs i = some j)
    (hfront : pairInside? cs pairs translate n c i j = some w) (hw' : w.IsFront f)
    (hrest : Placed cs pairs (j + 1) rest) (hbare : rest.hasBare d = false)
    (hn : rest.length < n) :
    roundInside? cs pairs translate n c next i (j + 1 + rest.length) =
      some ((f rest).fragment d) := by
  obtain ⟨hback, hmark, hstar⟩ : c ≠ '\\' ∧ isGroupMark c = false ∧ c ≠ '*' := by
    simp only [List.mem_cons, List.not_mem_nil, or_false] at hc
    rcases hc with rfl | rfl | rfl <;> decide
  have hnone : (if isGroupMark c = true ∧ next = some '(' then partner? pairs (i + 1) else none) =
      none := if_neg fun hmarked => Bool.false_ne_true (hmark.symm.trans hmarked.1)
  unfold roundInside?
  rw [if_neg hback, hnone, if_pos hc, hpartner, hw' d rest]
  simp only [if_neg hstar, hfront, Option.bind_some, hw hrest hd hbare hn]
  rfl

end Rounds

/-- **Stretches are written as the trees that stand there.** -/
theorem writes_translateInside? (n : Nat) : Writes cs pairs (translateInside? cs pairs n) n := by
  -- All that a round leaves to the next ones, inside a group or behind, is shorter by its opener.
  induction n with
  | zero => exact fun _ _ _ hn => absurd hn (Nat.not_lt_zero _)
  | succ n ih =>
    intro i g d h hd hbare hn
    cases g with
    | done => exact if_pos (Nat.le_refl i)
    | char c rest =>
      obtain ⟨hcd, hrest⟩ := Bool.or_eq_false_iff.mp hbare
      have hn := Nat.le_of_lt_succ hn
      rw [translateInside?_round h rfl]
      by_cases hmark : isGroupMark c = true ∧ rest.OpensGroup
      · obtain ⟨hc, hopens⟩ := hmark
        obtain ⟨body, rest, rfl⟩ := opensGroup_iff.mp hopens
        exact ih.round_marked hd h hc hrest hn
      · by_cases hstar : c = '*'
        · subst hstar
          exact ih.round_star hd h (fun hopens => hmark ⟨rfl, hopens⟩) hrest hn
        · exact ih.round_char hd h hstar hmark (ne_of_beq_false hcd) hrest hn
    | escaped c rest =>
      have hrest := ih h.behind_escaped hd hbare (by rw [length] at hn; omega)
      have hstop : i + (escaped c rest).length = i + 2 + rest.length := by
        rw [length]
        omega
      rw [translateInside?_round h rfl, fragment, alternative, parts]
      unfold roundInside?
      rw [if_pos rfl, hstop]
      simp only [List.head?_cons, hrest]
      rfl
    | bracket body rest =>
      rw [length] at hn
      have hstop : i + (bracket body rest).length = i + body.length + 1 + 1 + rest.length := by
        rw [length]
        omega
      obtain ⟨w, hw, hfront⟩ := @Placed.exists_pairInside?_bracket cs pairs i n rest
        (translateInside? cs pairs n) body h (by omega)
      rw [translateInside?_round h rfl, hstop]
      exact ih.round_pair hd (by decide) h.partner_bracket hw hfront h.behind_bracket hbare
        (by omega)
    | group k body rest =>
      obtain ⟨hbody, hrest⟩ := h.within_group
      rw [length] at hn
      have hstop : i + (group k body rest).length = i + body.length + 1 + 1 + rest.length := by
        rw [length]
        omega
      obtain ⟨w, hw, hfront⟩ := ih.exists_pairInside?_group k hbody (by omega)
      rw [translateInside?_round h rfl, hstop]
      exact ih.round_pair hd (by cases k <;> decide) h.partner_group hw hfront hrest hbare
        (by omega)

/-! ## 6. Segments -/

/-- Looking at the place where a piece stands tells whether it is spelled with a leading dot. -/
theorem Holds.dot_iff {stop : Nat} {s : Nat × Nat} {p : Glob} (h : Holds cs pairs '|' stop s p)
    (hstop : cs[stop]? = some ')') :
    (cs[s.1]? == some '.') = true ↔ (p.text.head? == some '.') = true := by
  obtain ⟨after, hstands⟩ := h.placed.stands
  cases htext : p.text with
  | nil =>
    have hempty : s.2 = s.1 := by
      rw [h.ends, ← length_text, htext]
      rfl
    rw [← hempty]
    rcases h.behind with hend | hnext
    · rw [hend, hstop]
      decide
    · rw [hnext]
      decide
  | cons c rest =>
    rw [htext] at hstands
    rw [(getElem?_of_drop hstands).1]
    rfl

theorem Placed.closer {k : Grouping} (h : Placed cs pairs i (group k body rest)) :
    cs[i + 1 + body.length]? = some k.closer := by
  obtain ⟨after, hstands⟩ := h.stands
  have hbody : cs.drop (i + 1) = body.text ++ k.closer :: (rest.text ++ after) := by
    refine (getElem?_of_drop (c := k.opener) ?_).2
    rw [hstands, text]
    simp
  rw [← List.getElem?_drop, hbody, ← length_text, List.getElem?_append_right (Nat.le_refl _),
    Nat.sub_self]
  rfl

/-- The guard of a segment that begins with a character that marks no group. -/
theorem guard_unmarked (hplain : ¬ (isGroupMark c = true ∧ rest.OpensGroup)) :
    (char c rest).guard = if c = '*' ∨ c = '?' then .notDot .done else .done := by
  by_cases hopens : rest.OpensGroup
  · have hc : ¬ isGroupMark c = true := fun hc => hplain ⟨hc, hopens⟩
    have hwild : ¬ (c = '*' ∨ c = '?') := by
      rintro (rfl | rfl) <;> exact hc rfl
    obtain ⟨body, rest, rfl⟩ := opensGroup_iff.mp hopens
    rw [guard, if_neg hc, if_neg hwild]
  · exact guard.eq_2 c rest fun body rest' hrest => hopens (opensGroup_iff.mpr ⟨body, rest', hrest⟩)

/-- In front of a marked group the guard is found by looking at where the alternatives of the group
    begin. -/
theorem Writes.guardInside?_marked (hw : Writes cs pairs translate n)
    (h : Placed cs pairs i (char c (group .parens body rest))) (hmark : isGroupMark c = true)
    (hn : (char c (group .parens body rest)).length ≤ n) :
    guardInside? cs pairs translate n i (i + (char c (group .parens body rest)).length) =
      some (char c (group .parens body rest)).guard := by
  obtain ⟨hc, hnext⟩ := h.look rfl
  obtain ⟨hbody, -⟩ := h.behind_char.within_group
  rw [length, length] at hn
  have hcloser : i + 1 + body.length + 1 = i + 1 + 1 + body.length := by omega
  have hholds : List.Forall₂ (Holds cs pairs '|' (i + 1 + 1 + body.length)) _
    (body.pieces '|') := hbody.holds_spansOf
  -- Looking at the places keeps the spans of just those pieces that are spelled with a dot.
  have hdots := List.rel_filter (fun _ _ hs => hs.dot_iff h.behind_char.closer) hholds
  change List.Forall₂ _ _ body.dotted at hdots
  rw [guardInside?, hc, Option.bind_some, hnext, Option.bind_some, if_pos ⟨hmark, rfl⟩,
    h.behind_char.partner_group, guard_of_isGroupMark hmark]
  simp only
  rw [hcloser, hbody.cutInside?_eq (by decide) (by omega), Option.bind_some]
  generalize (spansOf (i + 2) (i + 2) (body.splitOn '|').1 (body.splitOn '|').2).filter
    (fun s => cs[s.1]? == some '.') = spans at hdots
  have hmapM : (spans.mapM fun s => translate s.1 s.2) =
      some (body.dotted.map (fragment '|')) :=
    hw.mapM rfl (by omega) (fun _ hp => (List.mem_filter.mp hp).1) hdots
  cases hdotted : body.dotted with
  | nil =>
    rw [hdotted, List.forall₂_nil_right_iff] at hdots
    exact if_pos (.inr hdots)
  | cons a others =>
    rw [hdotted] at hdots hmapM
    obtain ⟨s, ss, -, -, rfl⟩ := List.forall₂_cons_right_iff.mp hdots
    simp only
    by_cases hneg : c = '!'
    · rw [if_pos (.inl hneg), if_pos hneg]
    · rw [if_neg (by simp [hneg]), if_neg hneg, hmapM, Option.map_some, List.map_cons,
        Fragment.join, List.map_map]
      rfl

/-- **The guard of a segment** is found by its places. -/
theorem Writes.guardInside?_eq (hw : Writes cs pairs translate n) (h : Placed cs pairs i g)
    (hn : g.length ≤ n) (hne : g ≠ .done) :
    guardInside? cs pairs translate n i (i + g.length) = some g.guard := by
  cases g with
  | done => exact absurd rfl hne
  | char c rest =>
    by_cases hmark : isGroupMark c = true ∧ rest.OpensGroup
    · obtain ⟨hmark, hopens⟩ := hmark
      obtain ⟨body, rest, rfl⟩ := opensGroup_iff.mp hopens
      exact hw.guardInside?_marked h hmark hn
    · obtain ⟨hc, hnext⟩ := h.look rfl
      rw [guardInside?, hc, Option.bind_some, hnext, Option.bind_some,
        h.partner_of_not_marked hmark, h.partner_char, guard_unmarked hmark]
      simp
  | escaped c rest =>
    obtain ⟨hc, hnext⟩ := h.look rfl
    rw [guardInside?, hc, Option.bind_some, hnext, Option.bind_some]
    rfl
  | bracket body rest =>
    obtain ⟨hc, hnext⟩ := h.look rfl
    rw [guardInside?, hc, Option.bind_some, hnext, Option.bind_some, h.partner_bracket]
    rfl
  | group k body rest =>
    obtain ⟨hc, hnext⟩ := h.look rfl
    rw [guardInside?, hc, Option.bind_some, hnext, Option.bind_some]
    cases k <;> rfl

/-- **A segment is found by its places**, with its guard and its kind. -/
theorem segmentInside?_eq (dot : Bool) (h : Placed cs pairs i g) (hbare : g.hasBare '/' = false)
    (hn : g.length < n) :
    segmentInside? cs pairs dot n (i, i + g.length) = some (g.segment dot) := by
  have hw := @writes_translateInside? cs pairs n
  unfold segmentInside? segment
  rw [h.slice_eq]
  simp only
  split
  · rfl
  · rename_i hne
    split
    · rfl
    · have hdone : g ≠ .done := by
        rintro rfl
        exact hne rfl
      have hguard : (if dot then some .done else guardInside? cs pairs
          (translateInside? cs pairs n) n i (i + g.length)) =
            some (if dot then .done else g.guard) := by
        rw [hw.guardInside?_eq h (Nat.le_of_lt hn) hdone]
        split <;> rfl
      rw [hguard, Option.bind_some, hw h rfl hbare hn, Option.map_some]
      rfl

end Writing

end Glob

end Wildcard
