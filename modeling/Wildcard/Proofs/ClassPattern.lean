import Wildcard.Proofs.Compilation
import Wildcard.Proofs.Flags

/-!
# A class as a pattern

A pattern that is one class means one character: any in the union of what the class lists, or any
that is neither in it nor a separator. A hyphen makes a range of the characters next to it; where it
stands first, last or next to a named set, it is a character itself.

* `CompiledGlob.ofPattern_class`: such a pattern compiles and accepts what its class means, unless
  a hyphen stands between a character and a named set.
-/

namespace Wildcard

open Regex (Single)

/-! ## 1. The regex of a class -/

namespace Segmentation

variable {dot : Bool} {body : List Char}

/-- A class is written as its item, behind a guard if wildcards leave leading dots alone. -/
theorem middle_of_class (hclass : Glob.read ('[' :: body ++ [']']) = .bracket body .done) :
    middle dot ('[' :: body ++ [']']) =
      (if dot then .done else .notDot .done) ++ .single (Bracket.item body) .once .done := by
  have hbare : (Glob.read ('[' :: body ++ [']'])).hasBare '/' = false := by
    rw [hclass]
    rfl
  have hstars : ¬ (Glob.read ('[' :: body ++ [']'])).IsGlobstar := by
    rw [hclass]
    exact fun h => absurd (List.all_eq_true.mp h.2 '[' List.mem_cons_self) (by decide)
  rw [middle_of_not_hasBare rfl hbare hstars, Glob.segment_of_not_isGlobstar dot hstars, hclass]
  cases dot <;> rfl

end Segmentation

namespace Regex

variable {flags : Flags} {s : Single} {u : List Char}

/-- An item spans the one character that it accepts, but behind a guard no dot. -/
theorem spansUnder_guarded_item (dot : Bool) :
    SpansUnder flags u ((if dot then done else notDot done) ++ single s .once done) u [] ↔
      ∃ c, u = [c] ∧ (dot = true ∨ c ≠ '.') ∧ s.accepts flags.caseRule flags.dotAll c = true := by
  have hitem : SpansUnder flags u (single s .once done) u [] ↔
      ∃ c, u = [c] ∧ s.accepts flags.caseRule flags.dotAll c = true := by
    have hdone : (done : Regex).compared flags = done := by
      unfold compared
      split <;> rfl
    rw [SpansUnder, compared_single, hdone, spans_single barFree_done]
    simp only [Quantifier.Spans, spans_done, exists_eq_right, Reads]
    exact exists_congr fun c => and_comm
  cases dot with
  | true => simpa using hitem
  | false =>
    have hguard : notDot done ++ single s .once done = notDot (single s .once done) := rfl
    have hbar : (single s .once done).BarFree := barFree_done
    rw [if_neg Bool.false_ne_true, hguard, spansUnder_notDot hbar, hitem]
    constructor
    · rintro ⟨hdot, c, hu, hc⟩
      rw [hu] at hdot
      exact ⟨c, hu, .inr fun h => hdot (congrArg some h), hc⟩
    · rintro ⟨c, hu, hdot, hc⟩
      refine ⟨?_, c, hu, hc⟩
      rw [hu]
      exact fun h => (hdot.resolve_left Bool.false_ne_true) (Option.some.inj h)

end Regex

/-! ## 2. What it accepts -/

namespace CompiledGlob

variable {body : List Char} {options : Option MatchOptions} {flags : Regex.Flags}

/-- **A class compiles and means the union of what it lists**, or all but that and separators if it
    is negated, where case counts, if none of its ranges is reversed and no hyphen in it joins a
    character to a named set. -/
theorem ofPattern_class (hclass : Glob.read ('[' :: body ++ [']']) = .bracket body .done)
    (hflags : MatchOptions.regexFlags options = .ok flags)
    (hagree : (flags.ascii && flags.unicode) = false) (hcase : flags.ignoreCase = false)
    (hjoins : Bracket.joinsName (Bracket.classTokens body) = false)
    (horder : ¬ Bracket.Reverses (Bracket.classTokens body)) (negated : Option Bool)
    (serial : Nat) :
    ∃ g, ofPattern ('[' :: body ++ [']']) options negated serial = .ok g ∧
      ∀ candidate, g.isFoundIn candidate = true ↔
        ∃ c, candidate = [c] ∧ (MatchOptions.matchesDot options = true ∨ c ≠ '.') ∧
          Bracket.Means body c := by
  have hbody : Segmentation.body ('[' :: body ++ [']']) = '[' :: body ++ [']'] := rfl
  have hranges : (Segmentation.middle (MatchOptions.matchesDot options)
      ('[' :: body ++ [']'])).InOrder := by
    rw [Segmentation.inOrder_middle, hbody, hclass]
    exact List.forall_mem_singleton.mpr ((Bracket.inOrder_item hjoins).mpr horder)
  obtain ⟨g, hg⟩ := (exists_ofPattern_iff_inOrder hflags hagree negated serial).mpr hranges
  obtain ⟨hflags', hfound⟩ := isFoundIn_ofPattern hg
  have hsame : g.regex.flags = flags := Except.ok.inj (hflags'.symm.trans hflags)
  have hrule : flags.caseRule = .exact := by
    rw [Regex.Flags.caseRule, hcase]
    rfl
  refine ⟨g, hg, fun candidate => ?_⟩
  rw [hfound, hsame, Segmentation.middle_of_class hclass]
  refine (Regex.spansUnder_guarded_item _).trans (exists_congr fun c => ?_)
  rw [hrule, Bracket.accepts_item hjoins]

/-- Hyphens that stand first, behind a range, behind a named set and last, next to a character with
    a backslash and a name of no set; and a separator in a negated class. -/
theorem ofPattern_class_hyphens :
    (∃ g, ofPattern "[-a-f-[:digit:]-_[:no:]\\]-]".toList none none 0 = .ok g ∧
      ∀ candidate, g.isFoundIn candidate = true ↔ ∃ c, candidate = [c] ∧
        (MatchOptions.matchesDot none = true ∨ c ≠ '.') ∧
          Bracket.Means "-a-f-[:digit:]-_[:no:]\\]-".toList c) ∧
    ∃ g, ofPattern "[!]+--/a]".toList (some { dot := true }) none 0 = .ok g ∧
      ∀ candidate, g.isFoundIn candidate = true ↔ ∃ c, candidate = [c] ∧
        (MatchOptions.matchesDot (some { dot := true }) = true ∨ c ≠ '.') ∧
          Bracket.Means "!]+--/a".toList c := by
  let first := "-a-f-[:digit:]-_[:no:]\\]-".toList
  let second := "!]+--/a".toList
  have hfirst : ¬ Bracket.Reverses (Bracket.classTokens first) :=
    (Bracket.inOrder_item (by decide)).mp rfl
  have hsecond : ¬ Bracket.Reverses (Bracket.classTokens second) :=
    (Bracket.inOrder_item (by decide)).mp rfl
  exact ⟨@ofPattern_class first none _ (by decide) rfl rfl rfl (by decide) hfirst none 0,
    @ofPattern_class second (some { dot := true }) _ (by decide) rfl rfl rfl (by decide) hsecond
      none 0⟩

/-- Where a hyphen stands between a character and a named set, the regex makes a range of the
    character and the beginning of the set: from a letter to a digit it is reversed, and from a plus
    sign to a digit it leaves the other digits out. -/
theorem ofPattern_class_joined :
    (¬ ∃ g, ofPattern "[a-[:digit:]]".toList none none 0 = .ok g) ∧
      ∃ g, ofPattern "[+-[:digit:]]".toList none none 0 = .ok g ∧ g.isFoundIn ['5'] = false ∧
        Bracket.Means "+-[:digit:]".toList '5' := by
  have h : ofPattern "[+-[:digit:]]".toList none none 0 = .ok _ := rfl
  refine ⟨fun ⟨g, hg⟩ => ?_, _, h, by decide +kernel, .inr (.inr (.inl ?_))⟩
  · cases hg
  · exact (rfl : '5'.isDigit = true)

end CompiledGlob

end Wildcard
