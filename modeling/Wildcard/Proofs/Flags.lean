import Wildcard.Proofs.Glob.Locality
import Wildcard.Proofs.Segmentation

/-!
# Regexes under flags

What a regex spans in a text once its choices are marked as the flags ask for (`SpansUnder`). For
regexes without a bar at their own level this goes item by item, and where no choice is left it
does not hang on the flags: a separator, a dot in front of it and a whole segment that wildcards
may take are the same under all of them.
-/

namespace Wildcard

/-! ## 1. Item by item -/

namespace Regex

/-- What a regex spans in a text under flags. -/
def SpansUnder (flags : Flags) (text : List Char) (r : Regex) : List Char → List Char → Prop :=
  (r.compared flags).Spans (flags.subject text)

variable {flags : Flags} {text u v : List Char}

theorem spansUnder_done : SpansUnder flags text done u v ↔ u = v := by
  have h : (done : Regex).compared flags = done := by
    unfold compared
    split <;> rfl
  rw [SpansUnder, h, spans_done]

theorem spansUnder_append {r s : Regex} (hr : r.BarFree) (hs : s.BarFree) :
    SpansUnder flags text (r ++ s) u v ↔
      ∃ w, SpansUnder flags text r u w ∧ SpansUnder flags text s w v := by
  have hr' := barFree_compared flags hr
  have hs' := barFree_compared flags hs
  rw [SpansUnder, compared_append, spans_append hr' hs']
  exact Iff.rfl

theorem compared_single (s : Single) (q : Quantifier) (rest : Regex) :
    (single s q rest).compared flags = single s q (rest.compared flags) := by
  unfold compared
  split <;> rfl

theorem spansUnder_separator {rest : Regex} (h : rest.BarFree) :
    SpansUnder flags text (separator rest) u v ↔
      ∃ w, u = '/' :: w ∧ SpansUnder flags text rest w v := by
  have hrest := barFree_compared flags h
  rw [SpansUnder, separator, compared_single]
  exact spans_separator hrest

/-- A regex without a bar in a group, under flags. -/
theorem spansUnder_grouped {body : Regex} (h : body.BarFree) {q : Quantifier} :
    SpansUnder flags text (grouped body q) u v ↔ q.Spans (SpansUnder flags text body) u v := by
  have hgroup : (grouped body q).compared flags = grouped (body.compared flags) q := by
    unfold compared
    split
    · rw [grouped, markInside, Translation.markIfSet_of_barFree (barFree_markInside h)]
      rfl
    · rfl
  rw [SpansUnder, hgroup, spans_grouped]
  exact Iff.rfl

end Regex

/-! ## 2. Whole segments -/

/-- A segment that a globstar may take: it holds something and, where wildcards leave leading dots
    alone, begins with no dot. -/
def Swallowed (dot : Bool) (x : List Char) : Prop := x ≠ [] ∧ (dot = false → x.head? ≠ some '.')

namespace Regex

variable {flags : Flags} {text u v : List Char}

theorem accepts_quote_dot (rule : CaseRule) (dotAll : Bool) (c : Char) :
    (Single.literal (.quote '.')).accepts rule dotAll c = (c == '.') :=
  acceptsChar_eq_beq caseless_dot rule c

/-- Behind a guard no dot comes next. -/
theorem spansUnder_notDot {rest : Regex} (h : rest.BarFree) :
    SpansUnder flags text (notDot rest) u v ↔
      u.head? ≠ some '.' ∧ SpansUnder flags text rest u v := by
  have hguard : (notDot rest).compared flags = notDot (rest.compared flags) := by
    unfold compared
    split <;> rfl
  have hdot : (∃ w, (char '.' done).Spans (flags.subject text) u w) ↔ u.head? = some '.' := by
    rw [char]
    simp only [spans_single barFree_done, Quantifier.Spans, spans_done, exists_eq_right, Reads,
      accepts_quote_dot, beq_iff_eq]
    cases u with
    | nil => simp
    | cons d u => simp
  rw [SpansUnder, hguard, notDot, spans_notAhead (barFree_compared flags h), hdot]
  exact Iff.rfl

theorem spansUnder_notDot_done :
    SpansUnder flags text (notDot done) u v ↔ u.head? ≠ some '.' ∧ u = v := by
  rw [spansUnder_notDot barFree_done, spansUnder_done]

/-- Any text that holds something but no separator. -/
theorem spansUnder_notSeparators :
    SpansUnder flags text (single .notSeparator .plus done) u v ↔
      ∃ x, (x ≠ [] ∧ '/' ∉ x) ∧ u = x ++ v := by
  have hdone : (done : Regex).compared flags = done := by
    unfold compared
    split <;> rfl
  rw [SpansUnder, compared_single, hdone, spans_single barFree_done]
  simp only [Quantifier.Spans, spans_done, exists_eq_right, repeated_reads, Reads,
    accepts_notSeparator, bne_iff_ne]
  constructor
  · intro h
    obtain ⟨w, ⟨c, hc, hu⟩, s, hs, hw⟩ := h
    refine ⟨c :: s, ⟨by simp, ?_⟩, by rw [hu, hw, List.cons_append]⟩
    rw [List.mem_cons, not_or]
    exact ⟨Ne.symm hc, fun hmem => hs '/' hmem rfl⟩
  · intro h
    obtain ⟨x, ⟨hne, hx⟩, hu⟩ := h
    obtain ⟨c, s, rfl⟩ := List.exists_cons_of_ne_nil hne
    rw [List.mem_cons, not_or] at hx
    exact ⟨s ++ v, ⟨c, Ne.symm hx.1, hu⟩, s, fun d hd e => hx.2 (e ▸ hd), rfl⟩

/-- A whole segment that wildcards may take. -/
theorem spansUnder_wholeSegment {dot : Bool} :
    SpansUnder flags text (wholeSegment dot) u v ↔
      ∃ x, (Swallowed dot x ∧ '/' ∉ x) ∧ u = x ++ v := by
  have hmany : (single Single.notSeparator .plus done).BarFree := barFree_done
  cases dot with
  | true =>
    have hall (x : List Char) : Swallowed true x ↔ x ≠ [] := and_iff_left (by simp)
    simp only [hall]
    exact spansUnder_notSeparators
  | false =>
    refine (spansUnder_notDot hmany).trans ?_
    constructor
    · intro h
      obtain ⟨hu, hs⟩ := h
      obtain ⟨x, ⟨hne, hx⟩, rfl⟩ := spansUnder_notSeparators.mp hs
      obtain ⟨c, x, rfl⟩ := List.exists_cons_of_ne_nil hne
      exact ⟨c :: x, ⟨⟨hne, fun _ => hu⟩, hx⟩, rfl⟩
    · intro h
      obtain ⟨x, ⟨⟨hne, hu⟩, hx⟩, huv⟩ := h
      refine ⟨?_, spansUnder_notSeparators.mpr ⟨x, ⟨hne, hx⟩, huv⟩⟩
      obtain ⟨c, x, rfl⟩ := List.exists_cons_of_ne_nil hne
      rw [huv]
      exact hu rfl

end Regex

/-! ## 3. What a candidate may begin with -/

namespace Segmentation

open Regex (Flags SpansUnder)

variable {flags : Flags} {text u v : List Char}

/-- What of a candidate the segments of a pattern have to match: all of it, or what follows `./`
    if the pattern begins so. -/
def Leaves (pattern candidate rest : List Char) : Prop :=
  candidate = rest ∨
    ((currentDirectory? pattern).isSome = true ∧ candidate = '.' :: '/' :: rest)

theorem spansUnder_leading {pattern v : List Char} :
    SpansUnder flags text (leading pattern) u v ↔ Leaves pattern u v := by
  have hsep : (Regex.separator .done).BarFree := trivial
  have hdots : (Regex.char '.' (.separator .done)).BarFree := hsep
  have hchar : (Regex.char '.' (.separator .done)).compared flags = .char '.' (.separator .done) := by
    unfold Regex.compared
    split <;> rfl
  have hprefix (u v : List Char) :
      SpansUnder flags text (.char '.' (.separator .done)) u v ↔ u = '.' :: '/' :: v := by
    rw [SpansUnder, hchar, Regex.char, Regex.spans_single hsep]
    simp only [Regex.Quantifier.Spans, Regex.Reads, Regex.accepts_quote_dot, beq_iff_eq,
      exists_eq_left, Regex.spans_separator Regex.barFree_done, Regex.spans_done, exists_eq_right]
  unfold leading Leaves
  split
  · rename_i hdir
    rw [Regex.spansUnder_grouped hdots]
    simp only [Regex.Quantifier.Spans, hprefix, hdir, true_and]
  · rename_i hdir
    simp only [Regex.spansUnder_done, hdir, false_and, or_false, Bool.false_eq_true]

end Segmentation

end Wildcard
