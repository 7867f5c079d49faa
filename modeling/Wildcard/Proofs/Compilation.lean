import Wildcard.Proofs.Glob.Order

/-!
# Which patterns compile

Every text is a pattern, and every pattern is written as a regex that can be read. Compiling the
regex fails for one reason only, as long as the flags agree: a range in one of its sets is
reversed, and such a range is written by a class of the pattern.

* `CompiledRegex.compile_text_error`: why a well-spelled regex is not compiled.
* `CompiledGlob.exists_ofPattern_iff_inOrder`: a pattern compiles exactly if its regex is in order.
* `CompiledGlob.inOrder_middle_iff`: the regex is in order if no class has a reversed range.
-/

namespace Wildcard

/-! ## 1. Regexes -/

namespace Regex

/-- The error of a reversed range names its two ends. -/
theorem reversedRange?_eq_some {offset : Nat} {items : List Literal} {e : ReadError}
    (h : reversedRange? offset items = some e) :
    ∃ x y place, e = .reversedRange x y place ∧ y.char < x.char := by
  fun_induction reversedRange? offset items with
  | case1 offset x y rest stop hlt =>
    cases h
    exact ⟨x, y, _, rfl, hlt⟩
  | case2 offset x y rest stop hle ih => exact ih h
  | case3 offset x rest hno ih => exact ih h
  | case4 => cases h

theorem reversed?_eq_some {offset : Nat} {r : Regex} {e : ReadError}
    (h : r.reversed? offset = some e) :
    ∃ x y place, e = .reversedRange x y place ∧ y.char < x.char := by
  induction r generalizing offset with
  | done => cases h
  | single s q rest ih =>
    rcases Option.or_eq_some_iff.mp h with h | ⟨-, h⟩
    · cases s with
      | set negated items => exact reversedRange?_eq_some h
      | literal l => cases h
      | choice l => cases h
      | dot => cases h
    · exact ih h
  | anchor a rest ih => exact ih h
  | group k body q rest ihb ihr =>
    rcases Option.or_eq_some_iff.mp h with h | ⟨-, h⟩
    · exact ihb h
    · exact ihr h
  | bar rest ih => exact ih h

/-- **A well-spelled regex whose flags agree** is not compiled for one reason only: a range in it
    is reversed. -/
theorem compile_text_error {r : Regex} (hr : r.IsSpelled) {flags : Flags}
    (hagree : (flags.ascii && flags.unicode) = false) {e : CompileError}
    (h : CompiledRegex.compile r.text flags = .error e) :
    ¬ r.InOrder ∧ ∃ x y place, e = .reversedRange x y place ∧ y.char < x.char := by
  unfold CompiledRegex.compile at h
  rw [read_text hr] at h
  cases hrev : r.reversed? 0 with
  | none =>
    rw [hrev] at h
    simp only [orError, hagree, Bool.false_eq_true, if_false] at h
    cases h
  | some cause =>
    rw [hrev] at h
    cases h
    refine ⟨fun hin => ?_, ?_⟩
    · rw [(reversed?_eq_none 0 r).mpr hin] at hrev
      cases hrev
    · obtain ⟨x, y, place, rfl, hlt⟩ := reversed?_eq_some hrev
      exact ⟨x, y, _, rfl, hlt⟩

end Regex

/-! ## 2. Patterns -/

open Segmentation (body)

namespace CompiledGlob

variable {pattern : List Char} {options : Option MatchOptions} {flags : Regex.Flags}

/-- Under known flags a pattern is what its regex between the ends of a text is compiled to. -/
theorem ofPattern_eq (hflags : MatchOptions.regexFlags options = .ok flags)
    (negated : Option Bool) (serial : Nat) :
    ofPattern pattern options negated serial =
      match CompiledRegex.compile (Regex.anchor .start
        (Segmentation.middle (MatchOptions.matchesDot options) pattern ++
          .anchor .stop .done)).text flags with
      | .error cause => .error (.invalidPattern pattern cause)
      | .ok compiled =>
        .ok { pattern, regex := compiled.search, serial, segmentation := some (Segmentation.ofText
          (MatchOptions.matchesDot options) negated pattern) } := by
  unfold ofPattern
  simp only [hflags]
  rw [Segmentation.source, Segmentation.regex_ofText]
  rfl

/-- The regex of a pattern between the ends of a text is well spelled. -/
theorem isSpelled_anchored (dot : Bool) (pattern : List Char) :
    (Regex.anchor .start (Segmentation.middle dot pattern ++ .anchor .stop .done)).IsSpelled :=
  (Segmentation.spelled_middle dot pattern).isSpelled.append trivial

theorem inOrder_anchored {dot : Bool} {pattern : List Char} :
    (Regex.anchor .start (Segmentation.middle dot pattern ++ .anchor .stop .done)).InOrder ↔
      (Segmentation.middle dot pattern).InOrder :=
  (Regex.inOrder_append _ _).trans (and_iff_left trivial)

/-- The flags of a compiled pattern agree, and its regex is in order. -/
theorem inOrder_ofPattern {negated : Option Bool} {serial : Nat} {g : CompiledGlob}
    (h : ofPattern pattern options negated serial = .ok g) :
    ∃ flags, MatchOptions.regexFlags options = .ok flags ∧
      (flags.ascii && flags.unicode) = false ∧
        (Segmentation.middle (MatchOptions.matchesDot options) pattern).InOrder := by
  obtain ⟨flags, compiled, hflags, hcompile, -⟩ := compile_ofPattern h
  obtain ⟨-, hranges, hagree⟩ := Regex.compile_text (isSpelled_anchored _ pattern) hcompile
  exact ⟨flags, hflags, hagree, inOrder_anchored.mp ((Regex.reversed?_eq_none 0 _).mp hranges)⟩

/-- **A pattern compiles** under flags that agree exactly if its regex is in order. -/
theorem exists_ofPattern_iff_inOrder (hflags : MatchOptions.regexFlags options = .ok flags)
    (hagree : (flags.ascii && flags.unicode) = false) (negated : Option Bool) (serial : Nat) :
    (∃ g, ofPattern pattern options negated serial = .ok g) ↔
      (Segmentation.middle (MatchOptions.matchesDot options) pattern).InOrder := by
  constructor
  · intro ⟨g, hg⟩
    obtain ⟨-, -, -, hranges⟩ := inOrder_ofPattern hg
    exact hranges
  · intro hranges
    obtain ⟨c, hc⟩ := Regex.exists_compile
      (isSpelled_anchored (MatchOptions.matchesDot options) pattern)
      (inOrder_anchored.mpr hranges) hagree
    rw [ofPattern_eq hflags, hc]
    exact ⟨_, rfl⟩

/-- The classes of a pattern are in order exactly if none has a reversed range. -/
theorem inOrder_middle_iff (hapart : (Glob.read (body pattern)).NamesApart) (dot : Bool) :
    (Segmentation.middle dot pattern).InOrder ↔
      ∀ cls ∈ (Glob.read (body pattern)).classes, ¬ Bracket.Reverses (Bracket.classTokens cls) := by
  rw [Segmentation.inOrder_middle]
  exact forall₂_congr fun cls hcls =>
    Bracket.inOrder_item ((Bracket.hasNamesApart_iff cls).mp
      (Glob.namesApart_iff.mp hapart cls hcls)).joinsName_eq

end CompiledGlob

end Wildcard
