import Wildcard.Proofs.Flags
import Wildcard.Proofs.Path

/-!
# Segments of patterns and of candidates

A pattern whose separators all divide segments matches a candidate segment by segment
(`isFoundIn_iff_aligns`): each segment of the pattern but the globstars matches one segment of the
candidate with its own regex, and each run of globstars takes any number of whole segments, the
last run perhaps one empty segment at the end (`Aligns`). So folding globstars into their
neighbours, with all its separators, comes to this simple reading.

* `tail`: what stands in the regex of a pattern behind one of its segments; `spansUnder_tail` says
  what it spans, by induction on the segments.
* `spansUnder_joined`: what the regex of all segments spans.
-/

namespace Wildcard

open Regex (Flags Subject Edge Local Translation Single)

/-! ## 1. Alignment -/

/-- The regex of the segment, compiled on its own between the ends of a text, is found in a text. -/
def Segment.Matches (flags : Flags) (s : Segment) (x : List Char) : Prop :=
  ∃ c, CompiledRegex.compile (Regex.anchor .start (s.regex ++ .anchor .stop .done)).text flags =
    .ok c ∧ c.isFoundIn x = true

/-- How the segments of a pattern and those of a candidate correspond, in order. -/
inductive Aligns (flags : Flags) (dot : Bool) : List Segment → List (List Char) → Prop
  | done : Aligns flags dot [] []
  | segment {s : Segment} {rest : List Segment} {x : List Char} {xs : List (List Char)} :
      s.kind ≠ .globstar → s.Matches flags x → Aligns flags dot rest xs →
        Aligns flags dot (s :: rest) (x :: xs)
  /-- A globstar may take nothing. -/
  | skip {s : Segment} {rest : List Segment} {xs : List (List Char)} :
      s.kind = .globstar → Aligns flags dot rest xs → Aligns flags dot (s :: rest) xs
  /-- It may take one segment, and then more. -/
  | swallow {s : Segment} {rest : List Segment} {x : List Char} {xs : List (List Char)} :
      s.kind = .globstar → Swallowed dot x → Aligns flags dot (s :: rest) xs →
        Aligns flags dot (s :: rest) (x :: xs)
  /-- At the end of the pattern it may take an empty segment at the end of the candidate. -/
  | last {s : Segment} {rest : List Segment} :
      s.kind = .globstar → (∀ s' ∈ rest, s'.kind = .globstar) → Aligns flags dot (s :: rest) [[]]

namespace Glob

/-- All separators of the pattern divide its segments: none is escaped or stands in a group or a
    class, and no class matches one. -/
def Separated : Glob → Prop
  | done => True
  | char _ rest => rest.Separated
  | escaped c rest => c ≠ '/' ∧ rest.Separated
  | bracket body rest => '/' ∉ body ∧ (Bracket.item body).Stays ∧ rest.Separated
  | group _ body rest => '/' ∉ body.text ∧ body.Separated ∧ rest.Separated

instance decidableSeparated : (g : Glob) → Decidable g.Separated
  | done => isTrue trivial
  | char _ rest => decidableSeparated rest
  | escaped c rest =>
    have := decidableSeparated rest
    inferInstanceAs (Decidable (c ≠ '/' ∧ rest.Separated))
  | bracket body rest =>
    have := decidableSeparated rest
    inferInstanceAs (Decidable ('/' ∉ body ∧
      (Bracket.item body).accepts .exact false '/' = false ∧ rest.Separated))
  | group _ body rest =>
    have := decidableSeparated body
    have := decidableSeparated rest
    inferInstanceAs (Decidable ('/' ∉ body.text ∧ body.Separated ∧ rest.Separated))

/-- A pattern in a group without separators is written with items that match none. -/
theorem writtenIn_of_not_mem {g : Glob} (d : Char) (hg : g.Separated) (hslash : '/' ∉ g.text) :
    g.WrittenIn Single.Stays d := by
  induction g generalizing d with
  | done => trivial
  | char c rest ih =>
    rw [text, List.mem_cons, not_or] at hslash
    exact ⟨fun hc => absurd hc.symm hslash.1, fun _ => rfl, fun _ => rfl, ih d hg hslash.2⟩
  | escaped c rest ih =>
    simp only [text, List.mem_cons, not_or] at hslash
    refine ⟨fun hc => ?_, ih d hg.2 hslash.2.2⟩
    rw [hc.resolve_left hg.1]
    rfl
  | bracket body rest ih =>
    simp only [text, List.mem_cons, List.mem_append, not_or] at hslash
    exact ⟨hg.2.1, ih d hg.2.2 hslash.2.2⟩
  | group k body rest ihb ihr =>
    simp only [text, List.mem_cons, List.mem_append, not_or] at hslash
    have hrest := ihr d hg.2.2 hslash.2.2
    cases k with
    | braces => exact ⟨fun _ => rfl, ihb ',' hg.2.1 hg.1, hrest⟩
    | parens => exact ⟨ihb '|' hg.2.1 hg.1, hrest⟩

/-- Within its segments, such a pattern is written with items that match no separator. -/
theorem writtenIn_stays {g : Glob} (hg : g.Separated) : g.WrittenIn Single.Stays '/' := by
  induction g with
  | done => trivial
  | char c rest ih => exact ⟨fun _ => .inl rfl, fun _ => rfl, fun _ => rfl, ih hg⟩
  | escaped c rest ih =>
    refine ⟨fun hc => ?_, ih hg.2⟩
    rw [hc.resolve_left hg.1]
    rfl
  | bracket body rest ih => exact ⟨hg.2.1, ih hg.2.2⟩
  | group k body rest _ ih =>
    cases k with
    | braces => exact ⟨fun _ => rfl, writtenIn_of_not_mem ',' hg.2.1 hg.1, ih hg.2.2⟩
    | parens => exact ⟨writtenIn_of_not_mem '|' hg.2.1 hg.1, ih hg.2.2⟩

theorem admits_stays : Admits Single.Stays where
  char c hc _ := by
    simpa [Single.Stays, Single.accepts, Regex.acceptsChar] using Ne.symm hc

end Glob

/-! ## 2. One segment -/

section Segments

variable {flags : Flags} {text u : List Char} {dot : Bool}

open Regex (SpansUnder)

theorem Path.edge_behind (xs : List (List Char)) : Edge (behind xs) := by
  cases xs with
  | nil => exact .inl rfl
  | cons x xs => exact .inr rfl

/-- The regex of the segment can be compiled, and its items match no separator. -/
structure Segment.Fits (s : Segment) : Prop where
  spelled : Translation Single.IsSpelled True s.regex
  stays : Translation Single.Stays True s.regex
  inOrder : s.regex.InOrder

theorem Segment.Fits.local_spansUnder {s : Segment} (h : s.Fits) :
    Local (SpansUnder flags text s.regex) :=
  Regex.local_spans (h.stays.compared Regex.stays_marked flags)

theorem Segment.Fits.unrooted {s : Segment} (h : s.Fits) : (s.regex.compared flags).Unrooted :=
  (h.stays.compared Regex.stays_marked flags).unrooted

/-- **The regex of a segment matches a segment of a candidate** exactly if it spans it where it
    stands. -/
theorem Segment.Fits.matches_iff {s : Segment} (h : s.Fits)
    (hflags : (flags.ascii && flags.unicode) = false) (text : List Char) {x w : List Char}
    (hx : '/' ∉ x) (hw : Edge w) : s.Matches flags x ↔ SpansUnder flags text s.regex (x ++ w) w := by
  have hspelled : (Regex.anchor .start (s.regex ++ .anchor .stop .done)).IsSpelled :=
    h.spelled.isSpelled.append trivial
  have hranges : (Regex.anchor .start (s.regex ++ .anchor .stop .done)).InOrder :=
    (Regex.inOrder_append _ _).mpr ⟨h.inOrder, trivial⟩
  obtain ⟨c, hc⟩ := Regex.exists_compile hspelled hranges hflags
  obtain ⟨-, hfound⟩ := Regex.isFoundIn_compile h.spelled hc
  have hmatches : s.Matches flags x ↔ c.isFoundIn x = true := by
    constructor
    · intro ⟨c', hc', hfound'⟩
      have heq : c' = c := Except.ok.inj (hc'.symm.trans hc)
      exact heq ▸ hfound'
    · intro hfound'
      exact ⟨c, hc, hfound'⟩
  have hrules : Regex.SameRules (flags.subject x) (flags.subject text) := ⟨rfl, rfl⟩
  have hsame : (s.regex.compared flags).Spans (flags.subject x) = SpansUnder flags text s.regex :=
    Regex.spans_of_sameRules hrules h.unrooted
  have hlocal : Local (SpansUnder flags text s.regex) := h.local_spansUnder
  have hnil : Edge [] := .inl rfl
  rw [hmatches, hfound, hsame]
  constructor
  · intro hspan
    refine hlocal.moved x [] [] w hx hnil hw ?_
    rwa [List.append_nil]
  · intro hspan
    have h := hlocal.moved x [] w [] hx hw hnil hspan
    rwa [List.append_nil] at h

/-! ## 3. Behind a segment -/

namespace Segmentation

/-- Any number of whole segments, with a separator in front of each. -/
def more (whole : Regex) : Regex := .grouped (.separator whole) .star

/-- A separator that may be missing. -/
def lastSeparator : Regex := .single (.literal (.escaped '/')) .optional .done

/-- What the regex of a pattern has behind the regex of a segment that is no globstar. -/
def tail (whole : Regex) (segments : List Segment) : Regex :=
  match Segment.foldRight whole segments with
  | (false, []) => .done
  | (false, folded) => .separator (joined folded)
  | (true, []) => more whole ++ lastSeparator
  | (true, folded) => more whole ++ .separator (joined folded)

variable {whole : Regex} {s t : Segment} {rest : List Segment}

theorem joined_cons (s : Segment) (folded : List Segment) :
    joined (s :: folded) =
      s.regex ++ if folded.isEmpty then .done else .separator (joined folded) := by
  cases folded with
  | nil => simp [joined]
  | cons t folded => rfl

theorem foldRight_globstar (hs : s.kind = .globstar) :
    Segment.foldRight whole (s :: rest) = (true, (Segment.foldRight whole rest).2) := by
  simp [Segment.foldRight, hs]

theorem joined_foldRight (whole : Regex) (rest : List Segment) (hs : s.kind ≠ .globstar) :
    (Segment.foldRight whole (s :: rest)).1 = false ∧
      (Segment.foldRight whole (s :: rest)).2 ≠ [] ∧
        joined (Segment.foldRight whole (s :: rest)).2 = s.regex ++ tail whole rest := by
  unfold tail
  rw [Segment.foldRight]
  generalize Segment.foldRight whole rest = result
  obtain ⟨pending, folded⟩ := result
  simp only
  rw [if_neg hs]
  cases pending with
  | true =>
    refine ⟨rfl, List.cons_ne_nil _ _, ?_⟩
    rw [if_pos rfl, joined_cons]
    cases folded <;> simp [more, lastSeparator, Regex.append_assoc]
  | false =>
    refine ⟨rfl, List.cons_ne_nil _ _, ?_⟩
    rw [if_neg Bool.false_ne_true, joined_cons]
    cases folded <;> rfl

theorem tail_segment (hs : s.kind ≠ .globstar) :
    tail whole (s :: rest) = .separator (s.regex ++ tail whole rest) := by
  obtain ⟨hpending, hne, hjoined⟩ := joined_foldRight whole rest hs
  rw [← hjoined, tail]
  generalize Segment.foldRight whole (s :: rest) = result at hpending hne
  obtain ⟨pending, folded⟩ := result
  cases hpending
  cases folded with
  | nil => exact absurd rfl hne
  | cons s' folded => rfl

theorem tail_globstar_last (hs : s.kind = .globstar) :
    tail whole [s] = more whole ++ lastSeparator := by
  rw [tail, foldRight_globstar hs]
  rfl

theorem tail_globstar_globstar (hs : s.kind = .globstar) (ht : t.kind = .globstar) :
    tail whole (s :: t :: rest) = tail whole (t :: rest) := by
  rw [tail, tail, foldRight_globstar hs, foldRight_globstar ht]

theorem tail_globstar_segment (hs : s.kind = .globstar) (ht : t.kind ≠ .globstar) :
    tail whole (s :: t :: rest) = more whole ++ tail whole (t :: rest) := by
  obtain ⟨hpending, hne, -⟩ := joined_foldRight whole rest ht
  rw [tail, tail, foldRight_globstar hs]
  generalize Segment.foldRight whole (t :: rest) = result at hpending hne
  obtain ⟨pending, folded⟩ := result
  cases hpending
  cases folded with
  | nil => exact absurd rfl hne
  | cons s' folded => rfl

end Segmentation

/-! ## 4. Alignment, segment by segment -/

section Alignment

variable {s t : Segment} {rest : List Segment} {xs : List (List Char)}

/-- Alignment with a text is alignment with the segments that make it up. -/
theorem aligns_splitOn {segments : List Segment} {c : List Char} :
    Aligns flags dot segments (c.splitOn '/') ↔
      ∃ xs, (xs ≠ [] ∧ (∀ x ∈ xs, '/' ∉ x) ∧ c = ['/'].intercalate xs) ∧
        Aligns flags dot segments xs := by
  simp only [← Path.splitOn_eq_iff, exists_eq_left']

theorem aligns_nil : Aligns flags dot [] xs ↔ xs = [] := by
  constructor
  · intro h
    cases h
    rfl
  · intro h
    rw [h]
    exact .done

theorem aligns_segment (hs : s.kind ≠ .globstar) :
    Aligns flags dot (s :: rest) xs ↔
      ∃ x ys, xs = x :: ys ∧ s.Matches flags x ∧ Aligns flags dot rest ys := by
  constructor
  · intro h
    cases h with
    | segment _ hx hys => exact ⟨_, _, rfl, hx, hys⟩
    | skip hg _ => exact absurd hg hs
    | swallow hg _ _ => exact absurd hg hs
    | last hg _ => exact absurd hg hs
  · intro ⟨x, ys, hxs, hx, hys⟩
    rw [hxs]
    exact .segment hs hx hys

/-- A globstar takes some whole segments, and at the end of the pattern perhaps an empty one. -/
theorem aligns_globstar (hs : s.kind = .globstar) :
    Aligns flags dot (s :: rest) xs ↔
      ∃ ws ys, xs = ws ++ ys ∧ (∀ w ∈ ws, Swallowed dot w) ∧
        (Aligns flags dot rest ys ∨ (ys = [[]] ∧ ∀ s' ∈ rest, s'.kind = .globstar)) := by
  constructor
  · intro h
    generalize hsegs : s :: rest = segs at h
    induction h with
    | done => cases hsegs
    | segment hk _ _ _ =>
      cases hsegs
      exact absurd hs hk
    | skip _ hys _ =>
      cases hsegs
      exact ⟨[], _, rfl, by simp, .inl hys⟩
    | @swallow s' rest' x xs _ hx _ ih =>
      obtain ⟨ws, ys, hxs, hws, hys⟩ := ih hsegs
      refine ⟨x :: ws, ys, ?_, List.forall_mem_cons.mpr ⟨hx, hws⟩, hys⟩
      rw [hxs, List.cons_append]
    | last _ hall =>
      cases hsegs
      exact ⟨[], _, rfl, by simp, .inr ⟨rfl, hall⟩⟩
  · intro ⟨ws, ys, hxs, hws, hys⟩
    subst hxs
    induction ws with
    | nil =>
      rcases hys with hys | ⟨rfl, hall⟩
      · exact .skip hs hys
      · exact .last hs hall
    | cons w ws ih =>
      obtain ⟨hw, hws⟩ := List.forall_mem_cons.mp hws
      exact .swallow hs hw (ih hws)

/-- Two globstars in a row are as good as one. -/
theorem aligns_globstar_globstar (hs : s.kind = .globstar) (ht : t.kind = .globstar) :
    Aligns flags dot (s :: t :: rest) xs ↔ Aligns flags dot (t :: rest) xs := by
  constructor
  · intro h
    obtain ⟨ws, ys, rfl, hws, hys⟩ := (aligns_globstar hs).mp h
    induction ws with
    | nil =>
      rcases hys with hys | ⟨rfl, hall⟩
      · exact hys
      · exact .last ht (List.forall_mem_cons.mp hall).2
    | cons w ws ih =>
      obtain ⟨hw, hws⟩ := List.forall_mem_cons.mp hws
      have hrest : Aligns flags dot (s :: t :: rest) (ws ++ ys) :=
        (aligns_globstar hs).mpr ⟨ws, ys, rfl, hws, hys⟩
      exact .swallow ht hw (ih hrest hws)
  · exact .skip hs

/-- Globstars alone take whole segments, and perhaps an empty one at the end. -/
theorem aligns_globstars (hs : s.kind = .globstar) (hrest : ∀ s' ∈ rest, s'.kind = .globstar) :
    Aligns flags dot (s :: rest) xs ↔
      ∃ ws, (∀ w ∈ ws, Swallowed dot w) ∧ (xs = ws ∨ xs = ws ++ [[]]) := by
  induction rest generalizing s with
  | nil =>
    rw [aligns_globstar hs]
    constructor
    · intro ⟨ws, ys, hxs, hws, hys⟩
      rcases hys with hys | ⟨rfl, _⟩
      · rw [aligns_nil.mp hys, List.append_nil] at hxs
        exact ⟨ws, hws, .inl hxs⟩
      · exact ⟨ws, hws, .inr hxs⟩
    · intro ⟨ws, hws, hxs⟩
      rcases hxs with rfl | rfl
      · exact ⟨xs, [], (List.append_nil xs).symm, hws, .inl .done⟩
      · exact ⟨ws, [[]], rfl, hws, .inr ⟨rfl, by simp⟩⟩
  | cons t rest ih =>
    obtain ⟨ht, hrest⟩ := List.forall_mem_cons.mp hrest
    rw [aligns_globstar_globstar hs ht, ih ht hrest]

/-- The same of a text. -/
theorem aligns_globstars_splitOn (hs : s.kind = .globstar)
    (hrest : ∀ s' ∈ rest, s'.kind = .globstar) (c : List Char) :
    Aligns flags dot (s :: rest) (c.splitOn '/') ↔
      c = [] ∨ ∃ ws, ws ≠ [] ∧ (∀ w ∈ ws, Swallowed dot w) ∧
        (c.splitOn '/' = ws ∨ c.splitOn '/' = ws ++ [[]]) := by
  have hempty : c.splitOn '/' = [[]] ↔ c = [] := by simp [Path.splitOn_eq_iff]
  rw [aligns_globstars hs hrest]
  constructor
  · intro ⟨ws, hws, hc⟩
    by_cases hne : ws = []
    · rw [hne] at hc
      rcases hc with hc | hc
      · exact absurd hc (List.splitOn_ne_nil '/' c)
      · exact .inl (hempty.mp hc)
    · exact .inr ⟨ws, hne, hws, hc⟩
  · intro hc
    rcases hc with hc | ⟨ws, _, hws, hc⟩
    · exact ⟨[], by simp, .inr (hempty.mpr hc)⟩
    · exact ⟨ws, hws, hc⟩

end Alignment

/-! ## 5. What stands behind a segment -/

namespace Segmentation

/-- Whole segments with a separator in front of each. -/
theorem spansUnder_more {v : List Char} :
    SpansUnder flags text (more (.wholeSegment dot)) u v ↔
      ∃ ws, (∀ w ∈ ws, Swallowed dot w ∧ '/' ∉ w) ∧ u = Path.behind ws ++ v := by
  have hwhole : (Regex.wholeSegment dot).BarFree := by cases dot <;> trivial
  have hstep (u v : List Char) :
      SpansUnder flags text (.separator (.wholeSegment dot)) u v ↔
        ∃ w, (Swallowed dot w ∧ '/' ∉ w) ∧ u = '/' :: w ++ v := by
    rw [Regex.spansUnder_separator hwhole]
    simp only [Regex.spansUnder_wholeSegment]
    constructor
    · intro ⟨m, hu, w, hw, hm⟩
      exact ⟨w, hw, by rw [hu, hm, List.cons_append]⟩
    · intro ⟨w, hw, hu⟩
      exact ⟨w ++ v, hu, w, hw, rfl⟩
  have hbar : (Regex.separator (.wholeSegment dot)).BarFree := hwhole
  rw [more, Regex.spansUnder_grouped hbar]
  exact Regex.repeated_flatMap hstep

theorem spansUnder_lastSeparator {v : List Char} :
    SpansUnder flags text lastSeparator u v ↔ u = v ∨ u = '/' :: v := by
  have hdone : (Regex.done).compared flags = .done := by
    unfold Regex.compared
    split <;> rfl
  rw [SpansUnder, lastSeparator, Regex.compared_single, hdone,
    Regex.spans_single Regex.barFree_done]
  simp only [Regex.Quantifier.Spans, Regex.spans_done, exists_eq_right, Regex.Reads,
    Regex.accepts_separator, beq_iff_eq, exists_eq_left]

theorem barFree_tail {segments : List Segment}
    (h : ∀ s ∈ segments, s.kind ≠ .globstar → s.regex.BarFree) :
    (tail (.wholeSegment dot) segments).BarFree := by
  induction segments with
  | nil => trivial
  | cons s rest ih =>
    obtain ⟨hfirst, hrest⟩ := List.forall_mem_cons.mp h
    have ih := ih hrest
    by_cases hs : s.kind = .globstar
    · cases rest with
      | nil =>
        rw [tail_globstar_last hs]
        trivial
      | cons t rest =>
        by_cases ht : t.kind = .globstar
        · rw [tail_globstar_globstar hs ht]
          exact ih
        · rw [tail_globstar_segment hs ht]
          exact ih
    · rw [tail_segment hs]
      exact (hfirst hs).append ih

/-- A segment and what stands behind it span a text if it begins with a segment that matches. -/
theorem spansUnder_segment (hflags : (flags.ascii && flags.unicode) = false) {s : Segment}
    {rest : List Segment} (hs : s.Fits) (hbar : (tail (.wholeSegment dot) rest).BarFree)
    (hrest : ∀ m, SpansUnder flags text (tail (.wholeSegment dot) rest) m [] ↔
      ∃ ys, (∀ y ∈ ys, '/' ∉ y) ∧ m = Path.behind ys ∧ Aligns flags dot rest ys) :
    SpansUnder flags text (s.regex ++ tail (.wholeSegment dot) rest) u [] ↔
      ∃ x ys, (∀ y ∈ x :: ys, '/' ∉ y) ∧ u = x ++ Path.behind ys ∧ s.Matches flags x ∧
        Aligns flags dot rest ys := by
  rw [Regex.spansUnder_append hs.spelled.barFree hbar]
  constructor
  · intro ⟨m, hm, htail⟩
    obtain ⟨ys, hplain, rfl, hys⟩ := (hrest m).mp htail
    obtain ⟨x, hx, rfl⟩ := hs.local_spansUnder.within _ _ hm
    have hmatches := (hs.matches_iff hflags text hx (Path.edge_behind ys)).mpr hm
    exact ⟨x, ys, List.forall_mem_cons.mpr ⟨hx, hplain⟩, rfl, hmatches, hys⟩
  · intro ⟨x, ys, hxs, hu, hmatches, hys⟩
    obtain ⟨hx, hplain⟩ := List.forall_mem_cons.mp hxs
    have hm := (hs.matches_iff hflags text hx (Path.edge_behind ys)).mp hmatches
    have htail := (hrest (Path.behind ys)).mpr ⟨ys, hplain, rfl, hys⟩
    rw [hu]
    exact ⟨Path.behind ys, hm, htail⟩

/-- **What stands in the regex behind a segment** spans what is aligned with the segments behind
    it, each with its separator. -/
theorem spansUnder_tail (hflags : (flags.ascii && flags.unicode) = false) {segments : List Segment}
    (hfits : ∀ s ∈ segments, s.kind ≠ .globstar → s.Fits) :
    SpansUnder flags text (tail (.wholeSegment dot) segments) u [] ↔
      ∃ xs, (∀ x ∈ xs, '/' ∉ x) ∧ u = Path.behind xs ∧ Aligns flags dot segments xs := by
  induction segments generalizing u with
  | nil =>
    simp only [aligns_nil]
    constructor
    · intro h
      exact ⟨[], by simp, Regex.spansUnder_done.mp h, rfl⟩
    · intro ⟨xs, _, hu, hxs⟩
      rw [hu, hxs]
      exact Regex.spansUnder_done.mpr rfl
  | cons s rest ih =>
    obtain ⟨hfirst, hrest⟩ := List.forall_mem_cons.mp hfits
    have hbar : (tail (.wholeSegment dot) rest).BarFree :=
      barFree_tail fun s hs hk => (hrest s hs hk).spelled.barFree
    have hmore : (more (.wholeSegment dot)).BarFree := trivial
    by_cases hs : s.kind = .globstar
    · cases rest with
      | nil =>
        have hlast : lastSeparator.BarFree := trivial
        rw [tail_globstar_last hs, Regex.spansUnder_append hmore hlast]
        simp only [spansUnder_more, spansUnder_lastSeparator, aligns_globstar hs, aligns_nil]
        constructor
        · intro ⟨m, ⟨ws, hws, hu⟩, hm⟩
          have hswallowed : ∀ w ∈ ws, Swallowed dot w := fun w hw => (hws w hw).1
          rcases hm with rfl | rfl
          · exact ⟨ws, fun w hw => (hws w hw).2, by simpa using hu,
              ws, [], by simp, hswallowed, .inl rfl⟩
          · refine ⟨ws ++ [[]], ?_, by simpa using hu, ws, [[]], rfl, hswallowed, .inr ⟨rfl, by simp⟩⟩
            refine List.forall_mem_append.mpr ⟨fun w hw => (hws w hw).2, by simp⟩
        · intro ⟨xs, hxs, hu, ws, ys, hsplit, hws, hys⟩
          rw [hsplit] at hxs hu
          obtain ⟨hplain, _⟩ := List.forall_mem_append.mp hxs
          rw [Path.behind_append] at hu
          refine ⟨Path.behind ys, ⟨ws, fun w hw => ⟨hws w hw, hplain w hw⟩, hu⟩, ?_⟩
          rcases hys with rfl | ⟨rfl, _⟩
          · exact .inl rfl
          · exact .inr rfl
      | cons t rest =>
        by_cases ht : t.kind = .globstar
        · rw [tail_globstar_globstar hs ht, ih hrest]
          simp only [aligns_globstar_globstar hs ht]
        · rw [tail_globstar_segment hs ht, Regex.spansUnder_append hmore hbar]
          simp only [spansUnder_more, aligns_globstar hs]
          constructor
          · intro ⟨m, ⟨ws, hws, hu⟩, hm⟩
            obtain ⟨ys, hplain, rfl, hys⟩ := (ih hrest).mp hm
            refine ⟨ws ++ ys, ?_, by rw [hu, Path.behind_append],
              ws, ys, rfl, fun w hw => (hws w hw).1, .inl hys⟩
            exact List.forall_mem_append.mpr ⟨fun w hw => (hws w hw).2, hplain⟩
          · intro ⟨xs, hxs, hu, ws, ys, hsplit, hws, hys⟩
            rw [hsplit] at hxs hu
            obtain ⟨hplain, hplain'⟩ := List.forall_mem_append.mp hxs
            rw [Path.behind_append] at hu
            rcases hys with hys | ⟨_, hall⟩
            · exact ⟨Path.behind ys, ⟨ws, fun w hw => ⟨hws w hw, hplain w hw⟩, hu⟩,
                (ih hrest).mpr ⟨ys, hplain', rfl, hys⟩⟩
            · exact absurd (hall t List.mem_cons_self) ht
    · have hboth : (s.regex ++ tail (.wholeSegment dot) rest).BarFree :=
        (hfirst hs).spelled.barFree.append hbar
      rw [tail_segment hs, Regex.spansUnder_separator hboth]
      simp only [spansUnder_segment hflags (hfirst hs) hbar fun m => ih hrest, aligns_segment hs]
      constructor
      · intro ⟨w, hu, x, ys, hplain, hw, hmatches, hys⟩
        exact ⟨x :: ys, hplain, by rw [hu, hw, Path.behind_cons], x, ys, rfl, hmatches, hys⟩
      · intro ⟨xs, hxs, hu, x, ys, hsplit, hmatches, hys⟩
        rw [hsplit] at hxs hu
        exact ⟨x ++ Path.behind ys, hu, x, ys, hxs, rfl, hmatches, hys⟩

/-! ## 6. Whole patterns -/

theorem joined_fold_segment {whole : Regex} {s : Segment} {rest : List Segment}
    (hs : s.kind ≠ .globstar) :
    joined (Segment.fold whole (s :: rest)) = s.regex ++ tail whole rest := by
  obtain ⟨hpending, -, hjoined⟩ := joined_foldRight whole rest hs
  rw [← hjoined, Segment.fold]
  generalize Segment.foldRight whole (s :: rest) = result at hpending
  obtain ⟨pending, folded⟩ := result
  cases hpending
  rfl

theorem joined_fold_globstar_last {whole : Regex} {s : Segment} (hs : s.kind = .globstar) :
    joined (Segment.fold whole [s]) =
      .grouped (whole ++ (more whole ++ lastSeparator)) .optional := by
  rw [Segment.fold, foldRight_globstar hs]
  rfl

theorem fold_globstar_globstar {whole : Regex} {s t : Segment} {rest : List Segment}
    (hs : s.kind = .globstar) (ht : t.kind = .globstar) :
    Segment.fold whole (s :: t :: rest) = Segment.fold whole (t :: rest) := by
  rw [Segment.fold, Segment.fold, foldRight_globstar hs, foldRight_globstar ht]

theorem joined_fold_globstar_segment {whole : Regex} {s t : Segment} {rest : List Segment}
    (hs : s.kind = .globstar) (ht : t.kind ≠ .globstar) :
    joined (Segment.fold whole (s :: t :: rest)) =
      .grouped (whole ++ .separator .done) .star ++ (t.regex ++ tail whole rest) := by
  obtain ⟨-, hne, hjoined⟩ := joined_foldRight whole rest ht
  rw [← hjoined, Segment.fold, foldRight_globstar hs]
  generalize (Segment.foldRight whole (t :: rest)).2 = folded at hne
  cases folded with
  | nil => exact absurd rfl hne
  | cons s' folded =>
    rw [joined_cons s' folded]
    exact (joined_cons _ folded).trans (Regex.append_assoc _ _ _)

/-- Whole segments with a separator behind each. -/
theorem spansUnder_lead {v : List Char} :
    SpansUnder flags text (.grouped (.wholeSegment dot ++ .separator .done) .star) u v ↔
      ∃ ws : List (List Char),
        (∀ w ∈ ws, Swallowed dot w ∧ '/' ∉ w) ∧ u = ws.flatMap (· ++ ['/']) ++ v := by
  have hwhole : (Regex.wholeSegment dot).BarFree := by cases dot <;> trivial
  have hsep : (Regex.separator .done).BarFree := trivial
  have hstep (u v : List Char) :
      SpansUnder flags text (.wholeSegment dot ++ .separator .done) u v ↔
        ∃ w, (Swallowed dot w ∧ '/' ∉ w) ∧ u = (w ++ ['/']) ++ v := by
    rw [Regex.spansUnder_append hwhole hsep]
    simp only [Regex.spansUnder_wholeSegment, Regex.spansUnder_separator Regex.barFree_done,
      Regex.spansUnder_done, exists_eq_right]
    refine exists_congr fun w => and_congr_right fun _ => ?_
    rw [List.append_assoc, List.singleton_append]
  rw [Regex.spansUnder_grouped (hwhole.append hsep)]
  exact Regex.repeated_flatMap hstep

theorem spansUnder_joined_segment (hflags : (flags.ascii && flags.unicode) = false) {s : Segment}
    {rest : List Segment} (hs : s.kind ≠ .globstar)
    (hfits : ∀ s' ∈ s :: rest, s'.kind ≠ .globstar → s'.Fits) :
    SpansUnder flags text (joined (Segment.fold (.wholeSegment dot) (s :: rest))) u [] ↔
      Aligns flags dot (s :: rest) (u.splitOn '/') := by
  obtain ⟨hfirst, hrest⟩ := List.forall_mem_cons.mp hfits
  have hbar : (tail (.wholeSegment dot) rest).BarFree :=
    barFree_tail fun s' hs' hk => (hrest s' hs' hk).spelled.barFree
  rw [joined_fold_segment hs, spansUnder_segment hflags (hfirst hs) hbar fun m =>
    spansUnder_tail hflags hrest, aligns_splitOn]
  simp only [aligns_segment hs]
  constructor
  · intro ⟨x, ys, hplain, hu, hmatches, hys⟩
    rw [← Path.intercalate_cons] at hu
    exact ⟨x :: ys, ⟨List.cons_ne_nil x ys, hplain, hu⟩, x, ys, rfl, hmatches, hys⟩
  · intro ⟨xs, ⟨_, hxs, hu⟩, x, ys, hsplit, hmatches, hys⟩
    rw [hsplit] at hxs hu
    rw [Path.intercalate_cons] at hu
    exact ⟨x, ys, hxs, hu, hmatches, hys⟩

/-- A globstar alone takes the empty text as well. -/
theorem spansUnder_joined_globstar (hflags : (flags.ascii && flags.unicode) = false) {s : Segment}
    (hs : s.kind = .globstar) :
    SpansUnder flags text (joined (Segment.fold (.wholeSegment dot) [s])) u [] ↔
      Aligns flags dot [s] (u.splitOn '/') := by
  have hfits : ∀ s' ∈ [s], s'.kind ≠ .globstar → s'.Fits :=
    List.forall_mem_singleton.mpr fun hk => absurd hs hk
  have hwhole : (Regex.wholeSegment dot).BarFree := by cases dot <;> trivial
  have hlast : (tail (.wholeSegment dot) [s]).BarFree := by
    rw [tail_globstar_last hs]
    trivial
  rw [joined_fold_globstar_last hs, ← tail_globstar_last hs,
    Regex.spansUnder_grouped (hwhole.append hlast), aligns_splitOn]
  simp only [Regex.Quantifier.Spans, Regex.spansUnder_append hwhole hlast,
    Regex.spansUnder_wholeSegment, spansUnder_tail hflags hfits]
  constructor
  · intro h
    rcases h with rfl | ⟨m, ⟨x, ⟨hx, hplain⟩, hu⟩, ys, hys, rfl, haligns⟩
    · exact ⟨[[]], by simp, .last hs (by simp)⟩
    · refine ⟨x :: ys, ⟨List.cons_ne_nil x ys, ?_, ?_⟩, .swallow hs hx haligns⟩
      · exact List.forall_mem_cons.mpr ⟨hplain, hys⟩
      · rw [hu, Path.intercalate_cons]
  · intro h
    obtain ⟨xs, ⟨hne, hxs, hu⟩, haligns⟩ := h
    cases haligns with
    | segment hk _ _ => exact absurd hs hk
    | skip _ h => exact absurd (aligns_nil.mp h) hne
    | @swallow _ _ x ys _ hx hys =>
      obtain ⟨hplain, hplains⟩ := List.forall_mem_cons.mp hxs
      rw [Path.intercalate_cons] at hu
      exact .inr ⟨Path.behind ys, ⟨x, ⟨hx, hplain⟩, hu⟩, ys, hplains, rfl, hys⟩
    | last _ _ => exact .inl hu

/-- **The regex of all segments** spans a text exactly if they are aligned with its segments. -/
theorem spansUnder_joined (hflags : (flags.ascii && flags.unicode) = false) {s : Segment}
    {rest : List Segment} (hfits : ∀ s' ∈ s :: rest, s'.kind ≠ .globstar → s'.Fits) :
    SpansUnder flags text (joined (Segment.fold (.wholeSegment dot) (s :: rest))) u [] ↔
      Aligns flags dot (s :: rest) (u.splitOn '/') := by
  induction rest generalizing s u with
  | nil =>
    by_cases hs : s.kind = .globstar
    · exact spansUnder_joined_globstar hflags hs
    · exact spansUnder_joined_segment hflags hs hfits
  | cons t rest ih =>
    obtain ⟨-, hrest⟩ := List.forall_mem_cons.mp hfits
    by_cases hs : s.kind = .globstar
    · by_cases ht : t.kind = .globstar
      · rw [fold_globstar_globstar hs ht, ih hrest, aligns_globstar_globstar hs ht]
      · have hlead : (Regex.grouped (.wholeSegment dot ++ .separator .done) .star).BarFree := trivial
        have hbar : (t.regex ++ tail (.wholeSegment dot) rest).BarFree := by
          obtain ⟨hfirst, hothers⟩ := List.forall_mem_cons.mp hrest
          exact (hfirst ht).spelled.barFree.append
            (barFree_tail fun s' hs' hk => (hothers s' hs' hk).spelled.barFree)
        rw [joined_fold_globstar_segment hs ht, Regex.spansUnder_append hlead hbar,
          ← joined_fold_segment ht, aligns_splitOn]
        simp only [spansUnder_lead, aligns_globstar hs]
        constructor
        · intro ⟨m, ⟨ws, hws, hu⟩, hm⟩
          obtain ⟨ys, ⟨hne, hys, hym⟩, haligns⟩ := aligns_splitOn.mp ((ih hrest).mp hm)
          refine ⟨ws ++ ys, ⟨by simp [hne], ?_, ?_⟩, ws, ys, rfl, fun w hw => (hws w hw).1, .inl haligns⟩
          · exact List.forall_mem_append.mpr ⟨fun w hw => (hws w hw).2, hys⟩
          · rw [Path.intercalate_append ws hne, hu, hym]
        · intro ⟨xs, ⟨_, hxs, hu⟩, ws, ys, hsplit, hws, hys⟩
          rcases hys with haligns | ⟨_, hall⟩
          · have hne : ys ≠ [] := by
              rintro rfl
              obtain ⟨x, ys, hnil, _⟩ := (aligns_segment ht).mp haligns
              cases hnil
            rw [hsplit] at hxs hu
            obtain ⟨hplain, hplains⟩ := List.forall_mem_append.mp hxs
            rw [Path.intercalate_append ws hne] at hu
            have hm := aligns_splitOn.mpr ⟨ys, ⟨hne, hplains, rfl⟩, haligns⟩
            exact ⟨_, ⟨ws, fun w hw => ⟨hws w hw, hplain w hw⟩, hu⟩, (ih hrest).mpr hm⟩
          · exact absurd (hall t List.mem_cons_self) ht
    · exact spansUnder_joined_segment hflags hs hfits

/-- What stands behind a segment is in order only if all segments there are. -/
theorem inOrder_tail {whole : Regex} {segments : List Segment}
    (h : (tail whole segments).InOrder) :
    ∀ s ∈ segments, s.kind ≠ .globstar → s.regex.InOrder := by
  induction segments with
  | nil => simp
  | cons s rest ih =>
    by_cases hs : s.kind = .globstar
    · refine List.forall_mem_cons.mpr ⟨fun hk => absurd hs hk, ?_⟩
      cases rest with
      | nil => simp
      | cons t rest =>
        by_cases ht : t.kind = .globstar
        · rw [tail_globstar_globstar hs ht] at h
          exact ih h
        · rw [tail_globstar_segment hs ht, Regex.inOrder_append] at h
          exact ih h.2
    · rw [tail_segment hs] at h
      obtain ⟨hregex, hrest⟩ := (Regex.inOrder_append _ _).mp h.2
      exact List.forall_mem_cons.mpr ⟨fun _ => hregex, ih hrest⟩

theorem inOrder_joined {whole : Regex} {s : Segment} {rest : List Segment}
    (h : (joined (Segment.fold whole (s :: rest))).InOrder) :
    ∀ s' ∈ s :: rest, s'.kind ≠ .globstar → s'.regex.InOrder := by
  have of_segment {s : Segment} {rest : List Segment} (hs : s.kind ≠ .globstar)
      (h : (s.regex ++ tail whole rest).InOrder) :
      ∀ s' ∈ s :: rest, s'.kind ≠ .globstar → s'.regex.InOrder := by
    obtain ⟨hregex, hrest⟩ := (Regex.inOrder_append _ _).mp h
    exact List.forall_mem_cons.mpr ⟨fun _ => hregex, inOrder_tail hrest⟩
  induction rest generalizing s with
  | nil =>
    by_cases hs : s.kind = .globstar
    · exact List.forall_mem_singleton.mpr fun hk => absurd hs hk
    · rw [joined_fold_segment hs] at h
      exact of_segment hs h
  | cons t rest ih =>
    by_cases hs : s.kind = .globstar
    · refine List.forall_mem_cons.mpr ⟨fun hk => absurd hs hk, ?_⟩
      by_cases ht : t.kind = .globstar
      · rw [fold_globstar_globstar hs ht] at h
        exact ih h
      · rw [joined_fold_globstar_segment hs ht, Regex.inOrder_append] at h
        exact of_segment ht h.2
    · rw [joined_fold_segment hs] at h
      exact of_segment hs h

end Segmentation

end Segments

/-! ## 7. Compiled patterns -/

open Segmentation in
/-- Each segment of a pattern whose separators all divide segments can be compiled on its own, if
    the pattern can. -/
theorem fits_plainSegments {pattern : List Char} {dot : Bool}
    (hsep : (Glob.read (body pattern)).Separated) (hranges : (middle dot pattern).InOrder) :
    ∀ s ∈ plainSegments dot pattern, s.kind ≠ .globstar → s.Fits := by
  obtain ⟨-, hjoined⟩ := (Regex.inOrder_append _ _).mp hranges
  have hspelled := Glob.writtenIn_isSpelled (Glob.filled_read (body pattern)) '/'
  have hstays := Glob.writtenIn_stays hsep
  intro s hs hk
  have hrange := inOrder_joined hjoined s hs hk
  obtain ⟨p, hp, rfl⟩ := List.mem_map.mp hs
  have hspelled' := Glob.writtenIn_splitOn hspelled p hp
  have hstays' := Glob.writtenIn_splitOn hstays p hp
  exact ⟨Glob.translation_segment Glob.admits_isSpelled _ hspelled' (.inl trivial),
    Glob.translation_segment Glob.admits_stays _ hstays' (.inl trivial), hrange⟩

open Segmentation in
/-- A compiled pattern accepts the candidates whose segments, perhaps behind `./`, are aligned with
    its own. -/
theorem CompiledGlob.isFoundIn_iff_exists_aligns {pattern : List Char}
    {options : Option MatchOptions} {negated : Option Bool} {serial : Nat} {g : CompiledGlob}
    {flags : Flags} (hflags : MatchOptions.regexFlags options = .ok flags)
    (hsep : (Glob.read (body pattern)).Separated)
    (h : CompiledGlob.ofPattern pattern options negated serial = .ok g) (c : List Char) :
    g.isFoundIn c = true ↔ ∃ rest, Leaves pattern c rest ∧
      Aligns flags (MatchOptions.matchesDot options)
        (plainSegments (MatchOptions.matchesDot options) pattern) (rest.splitOn '/') := by
  obtain ⟨flags', compiled, hflags', hcompile, hregex⟩ := CompiledGlob.compile_ofPattern h
  cases Except.ok.inj (hflags.symm.trans hflags')
  have hmiddle := spelled_middle (MatchOptions.matchesDot options) pattern
  have hwhole : (Regex.anchor .start (middle (MatchOptions.matchesDot options) pattern ++
      .anchor .stop .done)).IsSpelled := hmiddle.isSpelled.append trivial
  obtain ⟨-, hranges, hagree⟩ := Regex.compile_text hwhole hcompile
  obtain ⟨-, hfound⟩ := Regex.isFoundIn_compile hmiddle hcompile
  have hwholeRanges := (Regex.reversed?_eq_none 0 (Regex.anchor .start _)).mp hranges
  change (middle (MatchOptions.matchesDot options) pattern ++
    .anchor .stop .done).InOrder at hwholeRanges
  obtain ⟨hmiddleRanges, -⟩ := (Regex.inOrder_append _ _).mp hwholeRanges
  have hfits := fits_plainSegments hsep hmiddleRanges
  have hjoined := (spelled_segments (MatchOptions.matchesDot options) pattern).barFree
  have hleading := (spelled_leading pattern).barFree
  have hspan (rest : List Char) :=
    @spansUnder_joined flags c rest (MatchOptions.matchesDot options) hagree _ _ hfits
  have hsearch : g.isFoundIn c = compiled.isFoundIn c := by
    rw [CompiledGlob.isFoundIn, ← hregex]
    rfl
  rw [hsearch, hfound]
  refine (Regex.spansUnder_append hleading hjoined).trans (exists_congr fun rest => ?_)
  rw [spansUnder_leading]
  exact and_congr_right fun _ => hspan rest

open Segmentation in
/-- **A compiled pattern accepts the candidates with whose segments its own are aligned.** A pattern
    of nothing but globstars accepts whole segments, any number of them. -/
theorem CompiledGlob.isFoundIn_iff_aligns {pattern : List Char} {options : Option MatchOptions}
    {negated : Option Bool} {serial : Nat} {g : CompiledGlob} {flags : Flags}
    (hflags : MatchOptions.regexFlags options = .ok flags)
    (hsep : (Glob.read (body pattern)).Separated)
    (h : CompiledGlob.ofPattern pattern options negated serial = .ok g) (c : List Char) :
    (g.isFoundIn c = true ↔ ∃ rest, Leaves pattern c rest ∧
      Aligns flags (MatchOptions.matchesDot options)
        (plainSegments (MatchOptions.matchesDot options) pattern) (rest.splitOn '/')) ∧
    ((∀ s ∈ plainSegments (MatchOptions.matchesDot options) pattern, s.kind = .globstar) →
      (g.isFoundIn c = true ↔ ∃ rest, Leaves pattern c rest ∧
        (rest = [] ∨ ∃ ws, ws ≠ [] ∧ (∀ w ∈ ws, Swallowed (MatchOptions.matchesDot options) w) ∧
          (rest.splitOn '/' = ws ∨ rest.splitOn '/' = ws ++ [[]])))) := by
  have main := isFoundIn_iff_exists_aligns hflags hsep h c
  refine ⟨main, fun hall => main.trans (exists_congr fun rest => and_congr_right fun _ => ?_)⟩
  obtain ⟨hfirst, hothers⟩ := List.forall_mem_cons.mp hall
  exact aligns_globstars_splitOn hfirst hothers rest

open Segmentation in
theorem CompiledGlob.isFoundIn_iff_aligns_nested :
    ∃ g, CompiledGlob.ofPattern "./src/**/!(a)[x-z].c/**".toList none none 0 = .ok g ∧
      (g.isFoundIn "src/m/.n/by.c/".toList = true ↔
        ∃ rest, Leaves "./src/**/!(a)[x-z].c/**".toList "src/m/.n/by.c/".toList rest ∧
          Aligns {} false (plainSegments false "./src/**/!(a)[x-z].c/**".toList)
            (rest.splitOn '/')) := by
  have h : CompiledGlob.ofPattern "./src/**/!(a)[x-z].c/**".toList none none 0 = .ok _ := rfl
  exact ⟨_, h, (isFoundIn_iff_aligns rfl (by decide) h _).1⟩

end Wildcard
