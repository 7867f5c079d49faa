import Wildcard.Proofs.Glob.Places

/-!
# Every text is parsed

Whatever text it is given, parsing looks at places of the text and of its own tables only, and ends:
a copy of it in which every look may fail, and every walk has a bounded number of rounds, gives the
segments of every text. What is compiled then is a regex that can be read, and it is refused for one
reason only.

* `Glob.spansInside?_pairsOf`: cutting the text at its separators.
* `Segment.Folding.finish?_foldl`: folding globstars into their neighbours, one segment after the
  other.
* `Segmentation.segmentsInside?_eq`: the segments of every text are found.
* `CompiledGlob.exists_ofPattern_iff`: every pattern compiles unless it writes a reversed range.
-/

namespace Wildcard

/-! ## 1. Cutting the text -/

namespace Glob

/-- The spans of the segments, from place `i` on; the first number bounds the rounds. -/
def spansInside? (cs : List Char) (pairs : List (Nat × Nat)) :
    Nat → Walk → Nat → Option (List (Nat × Nat))
  | 0, _, _ => none
  | n + 1, w, i =>
    if cs.length ≤ i then some [(w.start, cs.length)]
    else
      cs[i]?.bind fun c =>
        if c = '\\' then spansInside? cs pairs n w (i + 2)
        else if pairs.any (·.1 == i) then
          spansInside? cs pairs n { w with depth := w.depth + 1 } (i + 1)
        else if pairs.any (·.2 == i) then
          spansInside? cs pairs n { w with depth := w.depth - 1 } (i + 1)
        else if c = '/' ∧ w.depth = 0 then
          (spansInside? cs pairs n { w with start := i + 1 } (i + 1)).map ((w.start, i) :: ·)
        else spansInside? cs pairs n w (i + 1)

/-- **Cutting a text by places** gives the spans of its segments. -/
theorem spansInside?_eq {cs : List Char} {pairs : List (Nat × Nat)} {n i : Nat} (w : Walk)
    (hi : i ≤ cs.length) (hn : cs.length < i + n) :
    spansInside? cs pairs n w i = some (segmentSpansFrom pairs false w i (cs.drop i)) := by
  induction n generalizing w i with
  | zero => omega
  | succ n ih =>
    rw [spansInside?]
    rcases Nat.lt_or_eq_of_le hi with hlt | rfl
    · have hrest (w : Walk) := ih w hlt (by omega)
      rw [if_neg (by omega), List.getElem?_eq_getElem hlt, Option.bind_some,
        List.drop_eq_getElem_cons hlt, segmentSpansFrom]
      by_cases hback : cs[i] = '\\'
      · rw [if_pos hback, if_pos hback]
        rcases Nat.lt_or_eq_of_le (show i + 1 ≤ cs.length from hlt) with hnext | hend
        · rw [ih w hnext (by omega), List.drop_eq_getElem_cons hnext]
          rfl
        · obtain ⟨n, rfl⟩ : ∃ m, n = m + 1 := ⟨n - 1, by omega⟩
          rw [spansInside?, if_pos (by omega), hend, List.drop_length]
          rfl
      · rw [if_neg hback, if_neg hback]
        simp only [hrest]
        split
        · rfl
        · split
          · rfl
          · split <;> rfl
    · rw [if_pos (Nat.le_refl _), List.drop_length]
      rfl

/-- The segments of a text are cut where its tree is. -/
theorem spansInside?_pairsOf (cs : List Char) :
    spansInside? cs (pairsOf cs) (cs.length + 1) {} 0 =
      some (spansOf 0 0 ((read cs).splitOn '/').1 ((read cs).splitOn '/').2) := by
  rw [spansInside?_eq {} (Nat.zero_le _) (by omega), List.drop_zero]
  exact congrArg some (((cutAt_segmentSpans cs).unique (cutAt_jumpSpans cs)).trans
    (jumpSpans_pairsOf (by decide) cs))

/-- The segments that are cut so are found by their places. -/
theorem mapM_segmentInside? (dot : Bool) (cs : List Char) :
    (spansOf 0 0 ((read cs).splitOn '/').1 ((read cs).splitOn '/').2).mapM
        (segmentInside? cs (pairsOf cs) dot (cs.length + 1)) =
      some (((read cs).pieces '/').map (segment dot)) := by
  refine mapM_of_holds (placed_read cs).holds_spansOf fun s p hp hholds => ?_
  have hle := length_le_of_mem_pieces hp
  rw [← length_text (read cs), text_read] at hle
  rw [← Prod.mk.eta (p := s), hholds.ends]
  exact segmentInside?_eq dot hholds.placed ((pieces_spec '/' _).1 p hp) (by omega)

end Glob

/-! ## 2. Folding globstars -/

namespace Segment

/-- Where folding globstars stands: the segments so far, the last one first, whether they began with
    a globstar, and whether one was the last. -/
structure Folding where
  out : List Segment := []
  leading : Bool := false
  afterGlobstar : Bool := false

variable (whole : Regex)

/-- The segment with any number of whole segments behind it. -/
def withMore (s : Segment) : Segment :=
  { s with regex := s.regex ++ Regex.grouped (.separator whole) .star, globstar := true }

/-- The segment with any number of whole segments in front of it. -/
def behindMore (s : Segment) : Segment :=
  { s with regex := Regex.grouped (whole ++ .separator .done) .star ++ s.regex, globstar := true }

/-- The segment with a separator that may stand at the end. -/
def withLast (s : Segment) : Segment :=
  { s with regex := s.regex ++ .single (.literal (.escaped '/')) .optional .done }

/-- What stands for a pattern of nothing but globstars. -/
def everything : Segment :=
  ⟨Regex.grouped (whole ++ (Regex.grouped (.separator whole) .star ++
    .single (.literal (.escaped '/')) .optional .done)) .optional, .globstar, ['*', '*'], true⟩

/-- Folds one more segment. -/
def Folding.step (f : Folding) (s : Segment) : Folding :=
  if s.kind = .globstar then
    if f.afterGlobstar then f
    else
      match f.out with
      | last :: before => { f with out := last.withMore whole :: before, afterGlobstar := true }
      | [] => { f with leading := true, afterGlobstar := true }
  else { out := (if f.leading then s.behindMore whole else s) :: f.out }

/-- The segments in the end; it fails if a globstar came last and there is no segment that it
    belongs to. -/
def Folding.finish? (f : Folding) : Option (List Segment) :=
  if f.leading then some (everything whole :: f.out).reverse
  else if f.afterGlobstar then
    match f.out with
    | last :: before => some (last.withLast :: before).reverse
    | [] => none
  else some f.out.reverse

variable {whole}

/-- The segment as it stands in front of what else there is. -/
def ended (s : Segment) (others : List Segment) : Segment :=
  if others.isEmpty then s.withLast else s

/-- Folding from the right adds one segment after the other. -/
theorem foldRight_cons (s : Segment) (rest : List Segment) :
    foldRight whole (s :: rest) =
      if s.kind = .globstar then (true, (foldRight whole rest).2)
      else (false, (if (foldRight whole rest).1 then
        (s.withMore whole).ended (foldRight whole rest).2 else s) :: (foldRight whole rest).2) := by
  rw [foldRight]
  generalize foldRight whole rest = folded
  obtain ⟨pending, others⟩ := folded
  simp only
  split
  · rfl
  · cases pending with
    | false => rfl
    | true =>
      cases others with
      | nil =>
        simp only [if_true, ended, withMore, withLast, List.isEmpty_nil, Regex.append_assoc]
      | cons next others =>
        simp [ended, withMore, Regex.append_done]

theorem behindMore_ended (s : Segment) (others : List Segment) :
    ((s.withMore whole).ended others).behindMore whole =
      ((s.behindMore whole).withMore whole).ended others := by
  unfold ended
  split <;> simp only [behindMore, withMore, withLast, Regex.append_assoc]

namespace Folding

/-- Behind a segment, whether a globstar came last or not, folding gives what folding from the right
    does. -/
theorem finish?_behind (segments before : List Segment) (last : Segment) :
    ((segments.foldl (step whole) { out := last :: before }).finish? whole =
        some (before.reverse ++ (if (foldRight whole segments).1 then
          (last.withMore whole).ended (foldRight whole segments).2 else last) ::
            (foldRight whole segments).2)) ∧
      (segments.foldl (step whole) { out := last :: before, afterGlobstar := true }).finish? whole =
        some (before.reverse ++ last.ended (foldRight whole segments).2 ::
          (foldRight whole segments).2) := by
  -- Both at once: a globstar leads from the first state to the second, any other segment back.
  induction segments generalizing before last with
  | nil => exact ⟨congrArg some List.reverse_cons, congrArg some List.reverse_cons⟩
  | cons s rest ih =>
    rw [foldRight_cons, List.foldl_cons, List.foldl_cons]
    by_cases hs : s.kind = .globstar
    · have hstep : step whole { out := last :: before } s =
          { out := last.withMore whole :: before, afterGlobstar := true } := if_pos hs
      have hstay : step whole { out := last :: before, afterGlobstar := true } s =
          { out := last :: before, afterGlobstar := true } := if_pos hs
      rw [hstep, hstay, if_pos hs]
      exact ⟨(ih before (last.withMore whole)).2, (ih before last).2⟩
    · have hstep (after : Bool) : step whole { out := last :: before, afterGlobstar := after } s =
          { out := s :: last :: before } := if_neg hs
      rw [hstep, hstep, if_neg hs, (ih (last :: before) s).1, List.reverse_cons,
        List.append_assoc]
      exact ⟨rfl, rfl⟩

/-- Behind nothing but globstars too. -/
theorem finish?_leading (segments : List Segment) :
    (segments.foldl (step whole) { leading := true, afterGlobstar := true }).finish? whole =
      some (match (foldRight whole segments).2 with
        | [] => [everything whole]
        | s :: others => s.behindMore whole :: others) := by
  induction segments with
  | nil => rfl
  | cons s rest ih =>
    rw [foldRight_cons, List.foldl_cons]
    by_cases hs : s.kind = .globstar
    · have hstay : step whole { leading := true, afterGlobstar := true } s =
          { leading := true, afterGlobstar := true } := if_pos hs
      rw [hstay, if_pos hs, ih]
    · have hstep : step whole { leading := true, afterGlobstar := true } s =
          { out := [s.behindMore whole] } := if_neg hs
      rw [hstep, if_neg hs, (finish?_behind rest [] _).1]
      simp only
      split
      · rw [behindMore_ended]
        rfl
      · rfl

/-- **Folding globstars one segment after the other** ends, and gives what folding from the right
    does. -/
theorem finish?_foldl (segments : List Segment) :
    (segments.foldl (step whole) {}).finish? whole = some (fold whole segments) := by
  cases segments with
  | nil => rfl
  | cons s rest =>
    rw [fold, foldRight_cons, List.foldl_cons]
    by_cases hs : s.kind = .globstar
    · have hstep : step whole {} s = { leading := true, afterGlobstar := true } := if_pos hs
      rw [hstep, if_pos hs, finish?_leading]
      cases (foldRight whole rest).2 <;> rfl
    · have hstep : step whole {} s = { out := [s] } := if_neg hs
      rw [hstep, if_neg hs, (finish?_behind rest [] s).1]
      rfl

end Folding

end Segment

/-! ## 3. Parsing -/

open Segmentation (body)

/-- The segments of a text, found by looks that may fail and walks that may not end. -/
def Segmentation.segmentsInside? (dot : Bool) (cs : List Char) : Option (List Segment) :=
  if cs = [] then some []
  else
    (Glob.readInside? cs).bind fun g =>
      (Glob.spansInside? cs (g.pairs 0) (cs.length + 1) {} 0).bind fun spans =>
        (spans.mapM (Glob.segmentInside? cs (g.pairs 0) dot (cs.length + 1))).bind fun segments =>
          (segments.foldl (Segment.Folding.step (.wholeSegment dot)) {}).finish? (.wholeSegment dot)

/-- **The segments of every text are found**, and no look at a place on the way fails. -/
theorem Segmentation.segmentsInside?_eq (dot : Bool) (negated : Option Bool) (pattern : List Char) :
    segmentsInside? dot (body pattern) = some (ofText dot negated pattern).segments := by
  rw [segments_ofText, plainSegments, segmentsInside?]
  split
  · rfl
  · have hpairs : (Glob.read (body pattern)).pairs 0 = Glob.pairsOf (body pattern) := rfl
    rw [Glob.readInside?_eq, Option.bind_some, hpairs, Glob.spansInside?_pairsOf, Option.bind_some,
      Glob.mapM_segmentInside?, Option.bind_some]
    exact Segment.Folding.finish?_foldl _

variable {pattern : List Char} {options : Option MatchOptions} {flags : Regex.Flags}

namespace CompiledGlob

open Segmentation (segmentsInside? segmentsInside?_eq ofText inOrder_middle)

/-- **Every pattern compiles unless it writes a reversed range.** It is parsed without leaving the
    pattern or its tables, and if it is not compiled, then a hyphen stands in a class between two
    characters of which the first has the higher code point. -/
theorem exists_ofPattern_iff (negated : Option Bool) (serial : Nat)
    (hflags : MatchOptions.regexFlags options = .ok flags)
    (hagree : (flags.ascii && flags.unicode) = false)
    (hapart : (Glob.read (body pattern)).NamesApart) :
    Glob.readInside? (body pattern) = some (Glob.read (body pattern)) ∧
      (∀ p ∈ Glob.pairsOf (body pattern), p.1 < p.2 ∧ p.2 < (body pattern).length) ∧
      (∀ dot, segmentsInside? dot (body pattern) = some (ofText dot negated pattern).segments) ∧
      ((∃ g, ofPattern pattern options negated serial = .ok g) ↔
        ∀ cls ∈ (Glob.read (body pattern)).classes,
          ¬ Bracket.Reverses (Bracket.classTokens cls)) ∧
      ∀ e, ofPattern pattern options negated serial = .error e →
        (∃ x y place, e = .invalidPattern pattern (.reversedRange x y place) ∧ y.char < x.char) ∧
          ∃ cls ∈ (Glob.read (body pattern)).classes, ∃ before x y after,
            Bracket.classTokens cls = before ++ x :: .hyphen :: y :: after ∧
              ∃ lo ∈ x.char?, ∃ hi ∈ y.char?, hi < lo := by
  have hcompiles := (exists_ofPattern_iff_inOrder hflags hagree negated serial).trans
    (inOrder_middle_iff hapart (MatchOptions.matchesDot options))
  refine ⟨Glob.readInside?_eq _, fun p hp => Glob.pairs_inside hp,
    fun dot => segmentsInside?_eq dot negated pattern, hcompiles, fun e he => ⟨?_, ?_⟩⟩
  · rw [ofPattern_eq hflags] at he
    split at he
    · rename_i cause hcause
      cases he
      obtain ⟨-, x, y, place, rfl, hlt⟩ :=
        Regex.compile_text_error (isSpelled_anchored _ pattern) hagree hcause
      exact ⟨x, y, place, rfl, hlt⟩
    · cases he
  · have hfails : ¬ ∃ g, ofPattern pattern options negated serial = .ok g := by
      intro ⟨g, hg⟩
      rw [hg] at he
      cases he
    obtain ⟨cls, hcls, hreverses⟩ := by
      simpa only [hcompiles, not_forall, not_not, exists_prop] using hfails
    exact ⟨cls, hcls, hreverses.exists_between⟩

/-- Delimiters without partners, an empty group and a backslash at the end do no harm; a reversed
    range does. -/
theorem exists_ofPattern_iff_unbalanced :
    (∃ g, ofPattern "!(a|{b,)}[!(+()[\\".toList none none 0 = .ok g) ∧
      ¬ ∃ g, ofPattern "\x7bx,[z-a]".toList none none 0 = .ok g := by
  refine ⟨(exists_ofPattern_iff none 0 rfl rfl (by decide)).2.2.2.1.mpr ?_, fun h => ?_⟩
  · exact List.forall_mem_nil _
  · refine (exists_ofPattern_iff none 0 rfl rfl (by decide)).2.2.2.1.mp h "z-a".toList ?_ ?_
    · exact List.mem_cons_self
    · exact .inl ⟨'z', rfl, 'a', rfl, by decide⟩

end CompiledGlob

end Wildcard
