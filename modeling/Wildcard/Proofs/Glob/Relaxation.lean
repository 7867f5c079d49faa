import Wildcard.Proofs.Compilation
import Wildcard.Proofs.Glob.Alignment
import Wildcard.Proofs.Regex.Groups
import Wildcard.Proofs.Regex.Spots

/-!
# Letting wildcards match leading dots

With and without the guards a pattern is compiled to two regexes that differ in two places only: in
front of a segment, where a guard stands or not, and in the whole segments that globstars take. Both
stand where a segment of the candidate begins, and both look for a dot there and for nothing else
that would keep the wildcards off. So the regex without guards spans all that the other one spans,
and the same as long as no segment of the candidate begins with a dot.

* `Relaxes`: one relation of rests allows all that another one allows, and the same until a segment
  is found to begin with a dot. Composition and repetition keep it, with the points of the path
  where the reader stands before and behind.
* `guards_guard`: a guard reads nothing and lets all pass that begins with no dot.
* `relaxed_tail`, `relaxed_joined`: segment by segment, by induction on the pieces of the pattern.
* `ofPattern_relaxed`: the two compiled patterns.
-/

namespace Wildcard

open Regex (Flags SpansUnder ReadsOn)
open Wildcard.Path (Point)

/-! ## 1. Points of a path -/

namespace Path

/-- What shows from within a segment shows from its beginning. -/
theorem exposed_of_inside {u : List Char} (h : Point.inside.after u = .exposed) :
    Point.start.after u = .exposed := by
  obtain ⟨x, hx, hdot⟩ := (after_eq_exposed u).2.mp h
  exact (after_eq_exposed u).1.mpr ⟨x, List.mem_of_mem_tail hx, hdot⟩

/-- What shows from within a segment behind some text showed from the beginning of the text on. -/
theorem Point.hidden_behind {p : Point} {x v : List Char} (h : p.after (x ++ v) ≠ .exposed) :
    Point.inside.after v ≠ .exposed := by
  rw [Point.after_append] at h
  intro hv
  cases hx : p.after x with
  | start => exact h (hx ▸ exposed_of_inside hv)
  | inside => exact h (hx ▸ hv)
  | exposed => exact h (hx ▸ Point.after_exposed v)

/-- Where nothing shows, the segment that is begun does not begin with a dot. -/
theorem Point.head?_of_hidden {u : List Char} (h : Point.start.after u ≠ .exposed) :
    u.head? ≠ some '.' := by
  intro hdot
  obtain ⟨v, rfl⟩ := List.head?_eq_some_iff.mp hdot
  exact h (Point.after_exposed v)

end Path

/-! ## 2. Relaxed relations -/

/-- The second relation of rests allows all that the first one allows. A reader who stands at the
    point `p` and finds no segment that begins with a dot is allowed no more by it, and stands at
    the point `q` behind. -/
def Relaxes (p q : Point) (R Q : List Char → List Char → Prop) : Prop :=
  ∀ u v, (R u v → Q u v) ∧
    (p.after u ≠ .exposed → Q u v → R u v ∧ q.after v ≠ .exposed)

section Relaxes

variable {p q s : Point} {R R' Q Q' : List Char → List Char → Prop}

theorem Relaxes.congr (h : Relaxes p q R Q) (hR : ∀ u v, R' u v ↔ R u v)
    (hQ : ∀ u v, Q' u v ↔ Q u v) : Relaxes p q R' Q' := by
  intro u v
  rw [hR, hQ]
  exact h u v

/-- What reads on is the same both times. -/
theorem relaxes_self (h : ReadsOn Q) : Relaxes p .inside Q Q := by
  intro u v
  refine ⟨id, fun hu hQ => ⟨hQ, ?_⟩⟩
  obtain ⟨x, rfl⟩ := h u v hQ
  exact Point.hidden_behind hu

/-- One after the other. -/
theorem Relaxes.then (h : Relaxes p q R Q) (h' : Relaxes q s R' Q') :
    Relaxes p s (fun u v => ∃ w, R u w ∧ R' w v) (fun u v => ∃ w, Q u w ∧ Q' w v) := by
  intro u v
  constructor
  · intro ⟨w, hR, hR'⟩
    exact ⟨w, (h u w).1 hR, (h' w v).1 hR'⟩
  · intro hu ⟨w, hQ, hQ'⟩
    obtain ⟨hR, hw⟩ := (h u w).2 hu hQ
    obtain ⟨hR', hv⟩ := (h' w v).2 hw hQ'
    exact ⟨⟨w, hR, hR'⟩, hv⟩

/-- Any number of times. -/
theorem Relaxes.repeated (h : Relaxes p p R Q) :
    Relaxes p p (Relation.ReflTransGen R) (Relation.ReflTransGen Q) := by
  intro u v
  refine ⟨Relation.ReflTransGen.mono (fun a b => (h a b).1) u v, fun hu hQ => ?_⟩
  induction hQ with
  | refl => exact ⟨.refl, hu⟩
  | tail _ hstep ih =>
    obtain ⟨hR, hw⟩ := ih
    obtain ⟨hlast, hv⟩ := (h _ _).2 hw hstep
    exact ⟨hR.tail hlast, hv⟩

/-- At most once. -/
theorem Relaxes.optional (h : Relaxes p .inside R Q) :
    Relaxes p .inside (fun u v => u = v ∨ R u v) (fun u v => u = v ∨ Q u v) := by
  intro u v
  refine ⟨Or.imp_right (h u v).1, fun hu hQ => ?_⟩
  rcases hQ with rfl | hQ
  · exact ⟨.inl rfl, @Point.hidden_behind p [] u hu⟩
  · obtain ⟨hR, hv⟩ := (h u v).2 hu hQ
    exact ⟨.inr hR, hv⟩

/-- Behind a separator a segment begins. -/
theorem Relaxes.behind_separator (h : Relaxes .start q R Q) :
    Relaxes .inside q (fun u v => ∃ w, u = '/' :: w ∧ R w v)
      (fun u v => ∃ w, u = '/' :: w ∧ Q w v) := by
  intro u v
  constructor
  · intro ⟨w, hu, hR⟩
    exact ⟨w, hu, (h w v).1 hR⟩
  · intro hhidden ⟨w, hu, hQ⟩
    subst hu
    obtain ⟨hR, hv⟩ := (h w v).2 hhidden hQ
    exact ⟨⟨w, rfl, hR⟩, hv⟩

/-- A condition that holds unless a dot comes next makes no difference where a segment begins. -/
theorem relaxes_guarded (h : ReadsOn Q) {P : List Char → Prop}
    (hP : ∀ u, u.head? ≠ some '.' → P u) :
    Relaxes .start .inside (fun u v => P u ∧ Q u v) Q := by
  intro u v
  refine ⟨And.right, fun hu hQ => ?_⟩
  have hself := ((relaxes_self h) u v).2 hu hQ
  exact ⟨⟨hP u (Point.head?_of_hidden hu), hQ⟩, hself.2⟩

end Relaxes

/-! ## 3. Relaxed regexes -/

namespace Regex

variable {flags : Flags} {text u v : List Char}

theorem readsOn_spansUnder (flags : Flags) (text : List Char) (r : Regex) :
    ReadsOn (SpansUnder flags text r) := by
  intro u v ⟨side, h⟩
  exact (mirrors_leadsBy (flags.subject text) (r.compared flags) side).readsOn u v h

/-- The second regex relaxes the first one under flags, and neither holds a bar at its own level. -/
structure Relaxed (flags : Flags) (text : List Char) (p q : Point) (r r' : Regex) : Prop where
  barFree : r.BarFree
  barFree' : r'.BarFree
  relaxes : Relaxes p q (SpansUnder flags text r) (SpansUnder flags text r')

variable {p q s : Point} {r r' t t' : Regex}

theorem relaxed_self (h : r.BarFree) : Relaxed flags text p .inside r r where
  barFree := h
  barFree' := h
  relaxes := relaxes_self (readsOn_spansUnder flags text r)

theorem relaxed_done : Relaxed flags text p p done done where
  barFree := barFree_done
  barFree' := barFree_done
  relaxes := by
    intro u v
    simp only [spansUnder_done]
    refine ⟨id, fun hu huv => ⟨huv, ?_⟩⟩
    rwa [← huv]

theorem Relaxed.append (h : Relaxed flags text p q r r') (h' : Relaxed flags text q s t t') :
    Relaxed flags text p s (r ++ t) (r' ++ t') where
  barFree := h.barFree.append h'.barFree
  barFree' := h.barFree'.append h'.barFree'
  relaxes := (h.relaxes.then h'.relaxes).congr
    (fun _ _ => spansUnder_append h.barFree h'.barFree)
    (fun _ _ => spansUnder_append h.barFree' h'.barFree')

theorem Relaxed.separator (h : Relaxed flags text .start q r r') :
    Relaxed flags text .inside q (separator r) (separator r') where
  barFree := h.barFree
  barFree' := h.barFree'
  relaxes := h.relaxes.behind_separator.congr
    (fun _ _ => spansUnder_separator h.barFree) (fun _ _ => spansUnder_separator h.barFree')

theorem Relaxed.star (h : Relaxed flags text p p r r') :
    Relaxed flags text p p (grouped r .star) (grouped r' .star) where
  barFree := trivial
  barFree' := trivial
  relaxes := h.relaxes.repeated.congr
    (fun _ _ => spansUnder_grouped h.barFree) (fun _ _ => spansUnder_grouped h.barFree')

theorem Relaxed.optional (h : Relaxed flags text p .inside r r') :
    Relaxed flags text p .inside (grouped r .optional) (grouped r' .optional) where
  barFree := trivial
  barFree' := trivial
  relaxes := h.relaxes.optional.congr
    (fun _ _ => spansUnder_grouped h.barFree) (fun _ _ => spansUnder_grouped h.barFree')

/-- A whole segment that a globstar takes, with a guard in front of it or without. -/
theorem relaxed_wholeSegment :
    Relaxed flags text .start .inside (wholeSegment false) (wholeSegment true) where
  barFree := trivial
  barFree' := trivial
  relaxes := (relaxes_guarded (readsOn_spansUnder flags text _) (fun _ => id)).congr
    (fun _ _ => spansUnder_notDot trivial) (fun _ _ => Iff.rfl)

/-! ## 4. Guards -/

/-- The regex reads nothing, and it lets everything pass that begins with no dot. -/
def Guards (flags : Flags) (text : List Char) (r : Regex) : Prop :=
  ∃ P : List Char → Prop, (∀ u, u.head? ≠ some '.' → P u) ∧
    ∀ u v, SpansUnder flags text r u v ↔ P u ∧ u = v

theorem guards_done : Guards flags text done :=
  ⟨fun _ => True, fun _ _ => trivial, fun u v => by rw [spansUnder_done, true_and]⟩

theorem guards_notDot : Guards flags text (notDot done) :=
  ⟨fun u => u.head? ≠ some '.', fun _ => id, fun _ _ => spansUnder_notDot_done⟩

/-- A leading dot may pass if certain texts come next. -/
theorem guards_notDot_or_ahead (body : Regex) :
    Guards flags text (grouped (notDot (bar (group .ahead body .once done))) .once) :=
  ⟨fun u => u.head? ≠ some '.' ∨ ∃ w, InsideUnder flags text body u w, fun _ => .inl,
    fun _ _ => spansUnder_notDot_or_ahead⟩

end Regex

section Segments

variable {flags : Flags} {text : List Char}

open Regex (Relaxed relaxed_self relaxed_done relaxed_wholeSegment)

/-! ## 5. Segments -/

namespace Glob

/-- **The guard of a pattern** is one of these. -/
theorem guards_guard (g : Glob) : Regex.Guards flags text g.guard := by
  unfold guard
  split
  · split
    · simp only
      split
      · split
        · exact Regex.guards_notDot
        · exact Regex.guards_notDot_or_ahead _
      · exact Regex.guards_notDot
    · exact Regex.guards_done
  · split
    · exact Regex.guards_notDot
    · exact Regex.guards_done
  · exact Regex.guards_notDot
  · exact Regex.guards_done

theorem barFree_guard (g : Glob) : g.guard.BarFree := by
  have hall : Admits fun _ => True := ⟨fun _ _ _ => trivial⟩
  exact (translation_guard hall (writtenIn_univ '/' g) (.inl trivial)).barFree

/-- **The regex of a segment**, with its guard or without. -/
theorem relaxed_segment {g : Glob} (hg : ¬ g.IsGlobstar) :
    Relaxed flags text .start .inside (g.segment false).regex (g.segment true).regex := by
  have hvalue : (parts '/' false g).1.regex.BarFree :=
    barFree_parts '/' false g _ List.mem_cons_self
  have hsame := @relaxed_self flags text .start _ hvalue
  rw [segment_of_not_isGlobstar false hg, segment_of_not_isGlobstar true hg]
  cases g.isMagic with
  | false => exact hsame
  | true =>
    obtain ⟨P, hP, hguard⟩ := @guards_guard flags text g
    have hguarded := relaxes_guarded
      (Regex.readsOn_spansUnder flags text (parts '/' false g).1.regex) hP
    have hjoined (u v : List Char) :
        SpansUnder flags text (g.guard ++ (parts '/' false g).1.regex) u v ↔
          P u ∧ SpansUnder flags text (parts '/' false g).1.regex u v := by
      rw [Regex.spansUnder_append (barFree_guard g) hvalue]
      simp only [hguard, and_assoc, exists_and_left, exists_eq_left']
    exact ⟨(barFree_guard g).append hvalue, hvalue, hguarded.congr hjoined fun _ _ => Iff.rfl⟩

end Glob

namespace Segmentation

/-- Any number of whole segments, with a separator in front of each. -/
theorem relaxed_more :
    Relaxed flags text .inside .inside (more (.wholeSegment false))
      (more (.wholeSegment true)) :=
  relaxed_wholeSegment.separator.star

/-- What stands behind a segment, by induction on the pieces of the pattern there. -/
theorem relaxed_tail (pieces : List Glob) :
    Relaxed flags text .inside .inside
      (tail (.wholeSegment false) (pieces.map (Glob.segment false)))
      (tail (.wholeSegment true) (pieces.map (Glob.segment true))) := by
  induction pieces with
  | nil => exact relaxed_done
  | cons g rest ih =>
    by_cases hg : g.IsGlobstar
    · have hkind (dot : Bool) : (g.segment dot).kind = .globstar := (Glob.kind_segment dot g).mpr hg
      cases rest with
      | nil =>
        have hlast : lastSeparator.BarFree := trivial
        simp only [List.map_cons, List.map_nil, tail_globstar_last (hkind _)]
        exact relaxed_more.append (relaxed_self hlast)
      | cons h rest =>
        simp only [List.map_cons] at ih ⊢
        by_cases hh : h.IsGlobstar
        · have hnext (dot : Bool) : (h.segment dot).kind = .globstar :=
            (Glob.kind_segment dot h).mpr hh
          simp only [tail_globstar_globstar (hkind _) (hnext _)]
          exact ih
        · have hnext (dot : Bool) : (h.segment dot).kind ≠ .globstar :=
            mt (Glob.kind_segment dot h).mp hh
          simp only [tail_globstar_segment (hkind _) (hnext _)]
          exact relaxed_more.append ih
    · have hkind (dot : Bool) : (g.segment dot).kind ≠ .globstar :=
        mt (Glob.kind_segment dot g).mp hg
      simp only [List.map_cons, tail_segment (hkind _)]
      exact ((Glob.relaxed_segment hg).append ih).separator

/-- **The regex of all segments**, by induction on the pieces of the pattern. -/
theorem relaxed_joined (g : Glob) (rest : List Glob) :
    Relaxed flags text .start .inside
      (joined (Segment.fold (.wholeSegment false) ((g :: rest).map (Glob.segment false))))
      (joined (Segment.fold (.wholeSegment true) ((g :: rest).map (Glob.segment true)))) := by
  have of_segment {g : Glob} (rest : List Glob) (hg : ¬ g.IsGlobstar) :
      Relaxed flags text .start .inside
        (joined (Segment.fold (.wholeSegment false) ((g :: rest).map (Glob.segment false))))
        (joined (Segment.fold (.wholeSegment true) ((g :: rest).map (Glob.segment true)))) := by
    have hkind (dot : Bool) : (g.segment dot).kind ≠ .globstar :=
      mt (Glob.kind_segment dot g).mp hg
    simp only [List.map_cons, joined_fold_segment (hkind _)]
    exact (Glob.relaxed_segment hg).append (relaxed_tail rest)
  induction rest generalizing g with
  | nil =>
    by_cases hg : g.IsGlobstar
    · have hkind (dot : Bool) : (g.segment dot).kind = .globstar := (Glob.kind_segment dot g).mpr hg
      have hlast : lastSeparator.BarFree := trivial
      simp only [List.map_cons, List.map_nil, joined_fold_globstar_last (hkind _)]
      exact (relaxed_wholeSegment.append
        (relaxed_more.append (relaxed_self hlast))).optional
    · exact of_segment [] hg
  | cons h rest ih =>
    by_cases hg : g.IsGlobstar
    · have hkind (dot : Bool) : (g.segment dot).kind = .globstar := (Glob.kind_segment dot g).mpr hg
      by_cases hh : h.IsGlobstar
      · have hnext (dot : Bool) : (h.segment dot).kind = .globstar :=
          (Glob.kind_segment dot h).mpr hh
        have ih := ih h
        simp only [List.map_cons] at ih ⊢
        simp only [fold_globstar_globstar (hkind _) (hnext _)]
        exact ih
      · have hnext (dot : Bool) : (h.segment dot).kind ≠ .globstar :=
          mt (Glob.kind_segment dot h).mp hh
        simp only [List.map_cons, joined_fold_globstar_segment (hkind _) (hnext _)]
        exact (relaxed_wholeSegment.append relaxed_done.separator).star.append
          ((Glob.relaxed_segment hh).append (relaxed_tail rest))
    · exact of_segment (h :: rest) hg

/-- What a candidate may have in front shows if it is there. -/
theorem relaxed_leading (pattern : List Char) :
    Relaxed flags text .start .start (leading pattern) (leading pattern) where
  barFree := (spelled_leading pattern).barFree
  barFree' := (spelled_leading pattern).barFree
  relaxes := by
    intro u v
    refine ⟨id, fun hu hleading => ⟨hleading, ?_⟩⟩
    rcases spansUnder_leading.mp hleading with rfl | ⟨-, rfl⟩
    · exact hu
    · exact absurd (Point.after_exposed _) hu

/-- **What stands between the ends of the text**, with guards or without. -/
theorem relaxed_middle (pattern : List Char) :
    Relaxed flags text .start .inside (middle false pattern) (middle true pattern) :=
  (relaxed_leading pattern).append (relaxed_joined _ _)

end Segmentation

end Segments

/-! ## 6. Compiled patterns -/

namespace CompiledGlob

variable {pattern : List Char} {options options' : Option MatchOptions}

/-- A pattern compiles with guards exactly if it compiles without. -/
theorem exists_ofPattern_congr
    (hflags : MatchOptions.regexFlags options = MatchOptions.regexFlags options')
    (negated' : Option Bool) (serial' : Nat) {negated : Option Bool} {serial : Nat}
    {g : CompiledGlob} (h : ofPattern pattern options negated serial = .ok g) :
    ∃ g', ofPattern pattern options' negated' serial' = .ok g' := by
  obtain ⟨flags, hoptions, hagree, hranges⟩ := inOrder_ofPattern h
  rw [Segmentation.inOrder_middle] at hranges
  refine (exists_ofPattern_iff_inOrder (hflags ▸ hoptions) hagree negated' serial').mpr ?_
  rwa [Segmentation.inOrder_middle]

/-- **Letting wildcards match leading dots** makes a pattern compile no more and no less often. All
    that is matched without is matched with it, and no other candidate unless one of its segments
    begins with a dot. -/
theorem ofPattern_relaxed
    (hflags : MatchOptions.regexFlags options = MatchOptions.regexFlags options')
    (hoff : MatchOptions.matchesDot options = false)
    (hon : MatchOptions.matchesDot options' = true) (pattern : List Char)
    (negated negated' : Option Bool) (serial serial' : Nat) :
    ((∃ e, ofPattern pattern options negated serial = .error e) ↔
      ∃ e, ofPattern pattern options' negated' serial' = .error e) ∧
    ∀ g g', ofPattern pattern options negated serial = .ok g →
      ofPattern pattern options' negated' serial' = .ok g' →
        ∀ c, (g.isFoundIn c = true → g'.isFoundIn c = true) ∧
          (¬ Path.HasDotfile c → g.isFoundIn c = g'.isFoundIn c) := by
  constructor
  · cases h : ofPattern pattern options negated serial with
    | ok g =>
      obtain ⟨g', h'⟩ := exists_ofPattern_congr hflags negated' serial' h
      simp [h']
    | error e =>
      cases h' : ofPattern pattern options' negated' serial' with
      | ok g' =>
        obtain ⟨g, hg⟩ := exists_ofPattern_congr hflags.symm negated serial h'
        rw [h] at hg
        cases hg
      | error e' => exact iff_of_true ⟨e, rfl⟩ ⟨e', rfl⟩
  · intro g g' h h' c
    obtain ⟨hoptions, hfound⟩ := isFoundIn_ofPattern h
    obtain ⟨hoptions', hfound'⟩ := isFoundIn_ofPattern h'
    have hsame : g'.regex.flags = g.regex.flags :=
      Except.ok.inj (hoptions'.symm.trans (hflags.symm.trans hoptions))
    rw [hsame] at hfound'
    rw [hoff] at hfound
    rw [hon] at hfound'
    obtain ⟨hmore, hno⟩ :=
      (@Segmentation.relaxed_middle g.regex.flags c pattern).relaxes c []
    refine ⟨fun hc => (hfound' c).mpr (hmore ((hfound c).mp hc)), fun hhidden => ?_⟩
    have hpoint : Point.start.after c ≠ .exposed := mt (Path.after_start c).mp hhidden
    rw [Bool.eq_iff_iff, hfound, hfound']
    exact ⟨hmore, fun hc => (hno hpoint hc).1⟩

/-- A pattern with a separator in a group, a marked group, a globstar and a leading `./`, where case
    is ignored. -/
theorem ofPattern_relaxed_nested :
    ∃ g g', ofPattern "./{*,b/?}/!(.x)*/**".toList (some { nocase := true }) none 0 = .ok g ∧
      ofPattern "./{*,b/?}/!(.x)*/**".toList (some { nocase := true, dot := true }) none 0 =
          .ok g' ∧
        g'.isFoundIn "./B/.c/y/.d".toList = true ∧ g.isFoundIn "./B/.c/y/.d".toList = false ∧
          g.isFoundIn "B/c/y".toList = g'.isFoundIn "B/c/y".toList := by
  have h : ofPattern "./{*,b/?}/!(.x)*/**".toList (some { nocase := true }) none 0 = .ok _ := rfl
  have h' : ofPattern "./{*,b/?}/!(.x)*/**".toList (some { nocase := true, dot := true }) none 0 =
    .ok _ := rfl
  have hno : ¬ Path.HasDotfile "B/c/y".toList := mt (Path.after_start _).mpr (by decide)
  refine ⟨_, _, h, h', by decide +kernel, by decide +kernel, ?_⟩
  exact ((@ofPattern_relaxed (some { nocase := true }) (some { nocase := true, dot := true })
    rfl rfl rfl _ none none 0 0).2 _ _ h h' _).2 hno

end CompiledGlob

end Wildcard
