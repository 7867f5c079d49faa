import Wildcard.Proofs.Compilation
import Wildcard.Proofs.Glob.Balanced
import Wildcard.Proofs.Glob.Literal

/-!
# Patterns whose segments are all literal

Whether a segment is a literal one is found out while it is translated. If all segments of a pattern
turn out to be, and no globstar was folded into any of them, then nothing in the pattern stands for
anything but itself, whatever delimiters without partners, braces without alternatives and escapes
it is written with. Such a pattern always compiles, and it is found in one text only: its own,
without the backslashes that escape.

* `plain_read_of_not_isMagic`: what the tree of such a pattern is spelled with is its text without
  the backslashes that escape, wherever in the tree they stand.
* `not_isMagic_of_isLiteral`: the kinds of the segments tell that there is no wildcard.
* `ofPattern_of_isLiteral`: such a pattern compiles, and what it is found in.
-/

namespace Wildcard

namespace Glob

/-! ## 1. Escapes -/

/-- What a pattern is spelled with can be told from its marks. -/
theorem plain_toMarks (g : Glob) : g.toMarks.flatMap Mark.plain = g.plain := by
  induction g with
  | done => rfl
  | char c rest ih => exact congrArg (c :: ·) ih
  | escaped c rest ih => exact congrArg (c :: ·) ih
  | bracket body rest ih => rw [toMarks, List.flatMap_cons, ih]; simp [Mark.plain, plain]
  | group k body rest ihb ihr =>
    rw [toMarks, List.flatMap_append, List.flatMap_cons, List.flatMap_cons, ihb, ihr]
    rfl

/-- A pattern without wildcards holds no class. -/
theorem not_mem_toMarks_of_not_isMagic {g : Glob} (h : g.isMagic = false) (body : List Char) :
    .bracket body ∉ g.toMarks := by
  induction g with
  | done => exact List.not_mem_nil
  | char c rest ih =>
    rw [isMagic, Bool.or_eq_false_iff] at h
    simpa [toMarks] using ih h.2
  | escaped c rest ih => simpa [toMarks] using ih h
  | bracket body rest => cases h
  | group k inside rest ihb ihr =>
    cases k with
    | parens => cases h
    | braces =>
      rw [isMagic, Bool.or_eq_false_iff, Bool.or_eq_false_iff] at h
      simpa [toMarks] using ⟨ihb h.1.2, ihr h.2⟩

/-- **The marks of a text that holds no class** are spelled with the text without the backslashes
    that escape. -/
theorem plain_marksOf {cs : List Char} (h : ∀ body, .bracket body ∉ marksOf cs) :
    (marksOf cs).flatMap Mark.plain = unescaped cs := by
  fun_induction unescaped cs with
  | case1 c rest ih =>
    rw [marksOf_escaped] at h ⊢
    have hrest := ih fun body hmem => h body (List.mem_cons_of_mem _ hmem)
    rw [List.flatMap_cons, hrest]
    rfl
  | case2 c rest hno ih =>
    have hmarks : marksOf (c :: rest) = .char c :: marksOf rest := by
      by_cases hopen : c = '['
      · subst hopen
        cases hclose : Bracket.closing? rest (Bracket.lookahead rest) with
        | none => exact marksOf_unclosed hclose
        | some n =>
          obtain ⟨body, rest', rfl, rfl⟩ := exists_eq_of_closing? hclose
          rw [marksOf_class hclose] at h
          exact absurd List.mem_cons_self (h body)
      · rw [marksOf, marks.eq_4 _ _ _ hno, if_neg hopen, tail_lookahead]
        rfl
    rw [hmarks] at h ⊢
    have hrest := ih fun body hmem => h body (List.mem_cons_of_mem _ hmem)
    rw [List.flatMap_cons, hrest]
    rfl
  | case3 => rfl

/-- **What a text without wildcards is spelled with** is the text without the backslashes that
    escape. -/
theorem plain_read_of_not_isMagic {cs : List Char} (h : (read cs).isMagic = false) :
    (read cs).plain = unescaped cs := by
  have hmarks := not_mem_toMarks_of_not_isMagic h
  rw [toMarks_read] at hmarks
  rw [← plain_toMarks, toMarks_read, plain_marksOf hmarks]

/-- A pattern without wildcards has no class that could be out of order. -/
theorem inOrder_of_not_isMagic {g : Glob} (h : g.isMagic = false) : g.InOrder := by
  induction g with
  | done => exact List.forall_mem_nil _
  | char c rest ih =>
    rw [isMagic, Bool.or_eq_false_iff] at h
    exact ih h.2
  | escaped c rest ih => exact ih h
  | bracket body rest => cases h
  | group k body rest ihb ihr =>
    cases k with
    | parens => cases h
    | braces =>
      rw [isMagic, Bool.or_eq_false_iff, Bool.or_eq_false_iff] at h
      exact inOrder_group.mpr ⟨ihb h.1.2, ihr h.2⟩

/-! ## 2. Kinds of segments -/

/-- A pattern holds no wildcard if none of its pieces does. -/
theorem isMagic_of_pieces {d : Char} {g : Glob} (hstar : d ≠ '*') (hmark : d ≠ '?')
    (h : ∀ p ∈ g.pieces d, p.isMagic = false) : g.isMagic = false := by
  induction g with
  | done => rfl
  | char c rest ih =>
    simp only [pieces, splitOn] at h
    rw [isMagic, Bool.or_eq_false_iff]
    split at h
    · rename_i hc
      subst hc
      exact ⟨by simp [hstar, hmark], ih (List.forall_mem_cons.mp h).2⟩
    · obtain ⟨hfirst, hothers⟩ := List.forall_mem_cons.mp h
      rw [isMagic, Bool.or_eq_false_iff] at hfirst
      exact ⟨hfirst.1, ih (List.forall_mem_cons.mpr ⟨hfirst.2, hothers⟩)⟩
  | escaped c rest ih =>
    obtain ⟨hfirst, hothers⟩ := List.forall_mem_cons.mp h
    exact ih (List.forall_mem_cons.mpr ⟨hfirst, hothers⟩)
  | bracket body rest => cases h _ List.mem_cons_self
  | group k body rest _ ih =>
    obtain ⟨hfirst, hothers⟩ := List.forall_mem_cons.mp h
    cases k with
    | parens => cases hfirst
    | braces =>
      simp only [splitOn, isMagic, Bool.or_eq_false_iff] at hfirst
      have hrest := ih (List.forall_mem_cons.mpr ⟨hfirst.2, hothers⟩)
      simp only [isMagic, hfirst.1, hrest, Bool.or_self]

/-- A literal segment, or an empty one, holds no wildcard. -/
theorem isMagic_of_kind_segment {dot : Bool} {g : Glob}
    (h : (g.segment dot).kind = .literal ∨ (g.segment dot).kind = .empty) : g.isMagic = false := by
  unfold segment at h
  simp only at h
  split at h
  · rename_i hnil
    cases g <;> simp_all [text, isMagic]
  · split at h
    · simp at h
    · split at h
      · simp at h
      · rename_i hmagic
        exact Bool.eq_false_iff.mpr hmagic

end Glob

/-- The segment is a literal one or empty, and no globstar was folded into it. -/
def Segment.IsLiteral (s : Segment) : Prop :=
  (s.kind = .literal ∨ s.kind = .empty) ∧ s.globstar = false

instance (s : Segment) : Decidable s.IsLiteral :=
  inferInstanceAs (Decidable ((s.kind = .literal ∨ s.kind = .empty) ∧ s.globstar = false))

namespace Segment

variable {whole : Regex} {segments : List Segment}

/-- A globstar is left over, or leaves its mark on the segment that it is folded into. -/
theorem kind_ne_globstar_of_foldRight (hpending : (foldRight whole segments).1 = false)
    (hmarks : ∀ s ∈ (foldRight whole segments).2, s.globstar = false) :
    ∀ s ∈ segments, s.kind ≠ .globstar := by
  induction segments with
  | nil => exact List.forall_mem_nil _
  | cons s rest ih =>
    simp only [foldRight] at hpending hmarks
    by_cases hkind : s.kind = .globstar
    · rw [if_pos hkind] at hpending
      cases hpending
    · rw [if_neg hkind] at hmarks
      by_cases hrest : (foldRight whole rest).1 = true
      · rw [if_pos hrest] at hmarks
        cases hmarks _ List.mem_cons_self
      · rw [if_neg hrest] at hmarks
        have hothers := (List.forall_mem_cons.mp hmarks).2
        exact List.forall_mem_cons.mpr ⟨hkind, ih (Bool.eq_false_iff.mpr hrest) hothers⟩

/-- **Segments that are literal once globstars are folded** were so to begin with. -/
theorem isLiteral_of_fold (h : ∀ s ∈ fold whole segments, s.IsLiteral) :
    ∀ s ∈ segments, s.IsLiteral := by
  have hnone : ∀ s ∈ segments, s.kind ≠ .globstar := by
    have hpending := @kind_ne_globstar_of_foldRight whole segments
    unfold fold at h
    generalize foldRight whole segments = result at h hpending
    obtain ⟨pending, folded⟩ := result
    cases pending with
    | false => exact hpending rfl fun s hs => (h s hs).2
    | true =>
      cases folded with
      | nil =>
        rcases (h _ List.mem_cons_self).1 with hkind | hkind
        · cases hkind
        · cases hkind
      | cons s rest => cases (h _ List.mem_cons_self).2
  rwa [Segmentation.fold_eq_self hnone] at h

end Segment

namespace Segmentation

/-- **A pattern whose segments are all literal** holds no wildcard. -/
theorem not_isMagic_of_isLiteral {dot : Bool} {negated : Option Bool} {pattern : List Char}
    (h : ∀ s ∈ (ofText dot negated pattern).segments, s.IsLiteral) :
    (Glob.read (body pattern)).isMagic = false := by
  rw [segments_ofText] at h
  split at h
  · rename_i hnil
    rw [hnil]
    rfl
  · have hplain := Segment.isLiteral_of_fold h
    refine Glob.isMagic_of_pieces (d := '/') (by decide) (by decide) fun p hp => ?_
    exact Glob.isMagic_of_kind_segment (hplain _ (List.mem_map_of_mem hp)).1

end Segmentation

/-! ## 3. What is matched -/

namespace CompiledGlob

open Segmentation (body Leaves)

variable {pattern : List Char} {options : Option MatchOptions} {flags : Regex.Flags}

/-- **A pattern whose segments are all literal compiles**, and where case counts it is found in one
    text only, the pattern without the backslashes that escape, or in that text and the text behind
    `./` if the pattern begins so. -/
theorem ofPattern_of_isLiteral (negated : Option Bool) (serial : Nat)
    (hflags : MatchOptions.regexFlags options = .ok flags)
    (hagree : (flags.ascii && flags.unicode) = false) (hcase : flags.ignoreCase = false)
    (hliteral : ∀ s ∈ (Segmentation.ofText (MatchOptions.matchesDot options) negated
      pattern).segments, s.IsLiteral) :
    ∃ g, ofPattern pattern options negated serial = .ok g ∧
      ∀ c, g.isFoundIn c = true ↔ Leaves pattern c (Glob.unescaped (body pattern)) := by
  have hmagic := Segmentation.not_isMagic_of_isLiteral hliteral
  have horder := (Segmentation.inOrder_middle (MatchOptions.matchesDot options) pattern).mpr
    (Glob.inOrder_of_not_isMagic hmagic)
  obtain ⟨g, hg⟩ := (exists_ofPattern_iff_inOrder hflags hagree negated serial).mpr horder
  have hrule : g.regex.flags.caseRule = .exact := by
    have hsame := (isFoundIn_ofPattern hg).1
    rw [hflags] at hsame
    rw [← Except.ok.inj hsame, Regex.Flags.caseRule, hcase]
    rfl
  have halone : Regex.MatchedAlone g.regex.flags.caseRule (Glob.read (body pattern)).plain := by
    intro x _ c
    rw [hrule]
    rfl
  refine ⟨g, hg, fun c => ?_⟩
  rw [isFoundIn_of_not_isMagic hg hmagic halone c, Glob.plain_read_of_not_isMagic hmagic]

/-- Escapes in and out of braces, delimiters without partners, braces around one alternative and
    around a range that is too long, empty segments, and a backslash at the end. -/
theorem ofPattern_of_isLiteral_unbalanced :
    ∃ g, ofPattern "./a\\*\x7b\\b\x7d)]//@(!\x7b\x7b1..2000\x7d/[\\".toList
        (some { flags := some ['x'] }) none 0 = .ok g ∧
      ∀ c, g.isFoundIn c = true ↔
        c = "a*\x7bb\x7d)]//@(!\x7b\x7b1..2000\x7d/[\\".toList ∨
          c = "./a*\x7bb\x7d)]//@(!\x7b\x7b1..2000\x7d/[\\".toList := by
  obtain ⟨g, hg, hfound⟩ := @ofPattern_of_isLiteral
    "./a\\*\x7b\\b\x7d)]//@(!\x7b\x7b1..2000\x7d/[\\".toList (some { flags := some ['x'] }) _
    none 0 rfl rfl rfl (by decide +kernel)
  exact ⟨g, hg, fun c => (hfound c).trans (or_congr_right (and_iff_right rfl))⟩

end CompiledGlob

end Wildcard
