import Wildcard.Proofs.Glob.Length

/-!
# How long the regex of a pattern is

The regex of a pattern is at most four thousand times as long as the pattern, but for a constant:
a range has at most a thousand values, a negated group writes what follows it twice, and the guard of
a segment may do so once more. What is folded into a segment adds a constant for each separator.

* `Segment.totalLength_fold_le`: what folding globstars adds.
* `Segmentation.totalLength_segments_le`: the segments of a pattern, each with its separator.
* `Segmentation.length_source_le`: the bound for the text of the regex.
-/

namespace Wildcard

open Regex (Quantifier)

/-! ## 1. Folded segments -/

namespace Segment

/-- How long some segments are, each with a separator. -/
def totalLength (segments : List Segment) : Nat := (segments.map (·.regex.length + 2)).sum

@[simp] theorem totalLength_nil : totalLength [] = 0 := rfl

@[simp] theorem totalLength_cons (s : Segment) (rest : List Segment) :
    totalLength (s :: rest) = s.regex.length + 2 + totalLength rest := rfl

variable {whole : Regex}

/-- A run of globstars is folded into the segment on its left once, however long it is. -/
theorem totalLength_foldRight_le (hwhole : whole.length ≤ 11) (segments : List Segment) :
    totalLength (foldRight whole segments).2 ≤ totalLength segments + 21 * segments.length := by
  induction segments with
  | nil => exact Nat.le_refl 0
  | cons s rest ih =>
    rw [totalLength_cons, List.length_cons]
    simp only [foldRight]
    split
    · simp only
      omega
    · split
      · have hlast : (if (foldRight whole rest).2.isEmpty = true then
            Regex.single (.literal (.escaped '/')) .optional .done else .done).length ≤ 3 := by
          split <;> decide
        simp only [totalLength_cons, Regex.length_append, Regex.length_grouped,
          Regex.length_separator, Quantifier.text, List.length_singleton]
        omega
      · rw [totalLength_cons]
        omega

/-- **Folding adds a constant** to each segment, and another one where no segment is on the left. -/
theorem totalLength_fold_le (hwhole : whole.length ≤ 11) (segments : List Segment) :
    totalLength (fold whole segments) ≤ totalLength segments + 21 * segments.length + 39 := by
  have hfolded := totalLength_foldRight_le hwhole segments
  have hlast : (Regex.single (.literal (.escaped '/')) .optional .done).length = 3 := rfl
  unfold fold
  split
  · rename_i folded heq
    rw [heq] at hfolded
    simp only at hfolded
    omega
  · simp only [totalLength_cons, totalLength_nil, Regex.length_append, Regex.length_grouped,
      Regex.length_separator, hlast, Quantifier.text, List.length_singleton]
    omega
  · rename_i s rest heq
    rw [heq] at hfolded
    simp only [totalLength_cons, Regex.length_append, Regex.length_grouped, Regex.length_done,
      Regex.length_separator, Quantifier.text, List.length_singleton] at hfolded ⊢
    omega

end Segment

/-! ## 2. Whole patterns -/

namespace Segmentation

open Glob (allowance)
open Segment (totalLength)

theorem length_joined_le (segments : List Segment) :
    (joined segments).length ≤ totalLength segments := by
  induction segments with
  | nil => exact Nat.le_refl 0
  | cons s rest ih =>
    cases rest with
    | nil => exact Nat.le_add_right _ _
    | cons next rest =>
      simp only [joined, Regex.length_append, Regex.length_separator,
        Segment.totalLength_cons] at ih ⊢
      omega

/-- The pieces of a pattern are written with four times the allowance of the pattern: a separator
    has an allowance too, which is more than enough for what may be folded into a segment. -/
theorem totalLength_pieces_le (dot : Bool) (d : Char) (p : Glob) (ps : List Glob) :
    totalLength ((p :: ps).map (Glob.segment dot)) + 21 * (p :: ps).length ≤
      4 * allowance (p.text ++ ps.flatMap fun q => d :: q.text) + 23 := by
  induction ps generalizing p with
  | nil =>
    have hp := Glob.length_segment_le dot p
    simp only [List.map_cons, List.map_nil, Segment.totalLength_cons, Segment.totalLength_nil,
      List.length_singleton, List.flatMap_nil, List.append_nil]
    omega
  | cons q ps ih =>
    have hp := Glob.length_segment_le dot p
    have hrest := ih q
    simp only [List.map_cons, Segment.totalLength_cons, List.length_cons, List.flatMap_cons,
      List.cons_append, Glob.allowance_append, Glob.allowance_cons] at hrest ⊢
    omega

/-- The segments of a pattern, with globstars folded into them. -/
theorem totalLength_segments_le (dot : Bool) (input : List Char) :
    totalLength (Segment.fold (.wholeSegment dot) (plainSegments dot input)) ≤
      4 * allowance (body input) + 62 := by
  have hfolded := Segment.totalLength_fold_le (Glob.length_wholeSegment_le dot)
    (plainSegments dot input)
  have hpieces := totalLength_pieces_le dot '/' ((Glob.read (body input)).splitOn '/').1
    ((Glob.read (body input)).splitOn '/').2
  rw [Glob.text_splitOn, Glob.text_read] at hpieces
  have hlength : (plainSegments dot input).length = ((Glob.read (body input)).pieces '/').length :=
    List.length_map _
  change totalLength (plainSegments dot input) +
    21 * ((Glob.read (body input)).pieces '/').length ≤ _ at hpieces
  omega

theorem length_leading_le (input : List Char) : (leading input).length ≤ 9 := by
  unfold leading
  split <;> decide

theorem length_body_le (input : List Char) : (body input).length ≤ input.length := by
  unfold body
  cases hdir : currentDirectory? input with
  | none => exact Nat.le_refl _
  | some rest =>
    rw [currentDirectory?_eq_some.mp hdir]
    exact Nat.le_add_right _ 2

/-- **The text of the regex of a pattern** is linear in the length of the pattern, whatever the
    options and however its groups are nested and chained. -/
theorem length_source_le (options : Option MatchOptions) (negated : Option Bool)
    (pattern : List Char) :
    (ofText (MatchOptions.matchesDot options) negated pattern).source.length ≤
      4000 * (pattern.length + 1) := by
  generalize MatchOptions.matchesDot options = dot
  have hsegments := totalLength_segments_le dot pattern
  have hjoined := length_joined_le (Segment.fold (.wholeSegment dot) (plainSegments dot pattern))
  have hleading := length_leading_le pattern
  have hbody : allowance (body pattern) ≤ 1000 * pattern.length :=
    Nat.mul_le_mul_left _ (length_body_le pattern)
  have hstart : Regex.Anchor.start.text.length = 2 := rfl
  have hclosing : closing.length = 2 := rfl
  change (ofText dot negated pattern).regex.length ≤ _
  rw [regex_ofText]
  simp only [middle, Regex.length_anchor, Regex.length_append, hstart, hclosing]
  omega

/-- In a chain of negated groups each adds as much as the one before, whatever follows. -/
example : ([1, 2, 3].map fun n => (ofText false none
    ((List.replicate n "!(a)".toList).flatten ++ "bcd".toList)).source.length) =
      [44, 72, 100] := by
  decide

end Segmentation

end Wildcard
