import Wildcard.Proofs.Glob.Boundary
import Wildcard.Proofs.Glob.Pieces
import Wildcard.Proofs.Shortcut

/-!
# A negated group and the same group taken once

What a negated group at the beginning of a pattern stands for is what the group does not match
there, so no candidate should be accepted both by the pattern and by the one that takes the group
once. The group looks at what follows it, unless the text that follows holds the opener of another
negated group, be it escaped or a member of a class. In that case it excludes only what its contents
match all by themselves.

* `Regex.not_spansUnder_exceptFor`: a negated group that looks at the rest excludes the group with
  the rest.
* `Regex.spansUnder_exceptFor_and_once`: one that does not look at the rest lets pass what the
  contents do not match all by themselves.
* `ofPattern_negated_or_once`: the two patterns.
-/

namespace Wildcard

/-! ## 1. Regexes -/

namespace Regex

variable {flags : Flags} {text u : List Char} {body rest : Regex}

/-- A negated group that looks at the rest excludes the group with the rest. -/
theorem not_spansUnder_exceptFor (hrest : rest.BarFree)
    (honce : SpansUnder flags text (group .plain body .once rest) u []) :
    ¬ SpansUnder flags text (exceptFor body rest rest) u [] := by
  intro hnegated
  obtain ⟨i, hi, hend⟩ := (spansUnder_group hrest).mp honce
  exact ((spansUnder_exceptFor hrest hrest).mp hnegated).1 ⟨[], ⟨i, hi, hend⟩, .inl rfl⟩

/-- **A negated group that does not look at the rest** lets pass what its contents do not match all
    by themselves. -/
theorem spansUnder_exceptFor_and_once (hbody : Local (InsideUnder flags text body))
    (hstays : Local (SpansUnder flags text rest)) (hrest : rest.BarFree) :
    (SpansUnder flags text (exceptFor body done rest) u [] ∧
        SpansUnder flags text (group .plain body .once rest) u []) ↔
      SpansUnder flags text (group .plain body .once rest) u [] ∧
        ¬ SpansUnder flags text (group .plain body .once done) u [] := by
  have halone {v : List Char} : SpansUnder flags text (group .plain body .once done) u v ↔
      InsideUnder flags text body u v := by
    rw [spansUnder_group barFree_done]
    simp only [spansUnder_done, exists_eq_right, Quantifier.Spans]
  simp only [spansUnder_exceptFor barFree_done hrest, spansUnder_done, exists_eq_right, halone]
  constructor
  · rintro ⟨⟨hno, -⟩, honce⟩
    exact ⟨honce, fun hall => hno ⟨[], hall, .inl rfl⟩⟩
  · rintro ⟨honce, hno⟩
    obtain ⟨i, hi, hend⟩ := (spansUnder_group hrest).mp honce
    obtain ⟨x, hx, hu⟩ := hbody.within u i hi
    obtain ⟨y, hy, hiy⟩ := hstays.within i [] hend
    refine ⟨⟨?_, x, i, hx, hu, hend⟩, honce⟩
    -- the text has no separator, so the end of its segment is its end
    rintro ⟨k, hk, hedge⟩
    rcases hedge with rfl | hhead
    · exact hno hk
    · obtain ⟨z, -, huz⟩ := hbody.within u k hk
      have hslash : '/' ∈ u := by
        rw [huz]
        exact List.mem_append_right z (List.mem_of_mem_head? hhead)
      rw [hu, hiy, List.append_nil] at hslash
      exact (List.mem_append.mp hslash).elim hx hy

end Regex

/-! ## 2. Compiled patterns -/

namespace Glob

/-- Nothing but the empty pattern can stand in front of a pattern without changing it. -/
theorem eq_done_of_append_eq {r s : Glob} (h : r ++ s = s) : r = done := by
  have hlength := congrArg length h
  rw [length_append] at hlength
  cases r with
  | done => rfl
  | char c rest => rw [length] at hlength; omega
  | escaped c rest => rw [length] at hlength; omega
  | bracket body rest => rw [length] at hlength; omega
  | group k body rest => rw [length] at hlength; omega

theorem eq_group_of_append_eq {k : Grouping} {body r s : Glob} (h : r ++ s = group k body s) :
    r = group k body done := by
  cases r with
  | done =>
    have hlength := congrArg length h
    rw [done_append, length] at hlength
    omega
  | char c rest => cases h
  | escaped c rest => cases h
  | bracket body rest => cases h
  | group k' body' rest =>
    obtain ⟨rfl, rfl, hrest⟩ := group.inj h
    rw [eq_done_of_append_eq hrest]

end Glob

namespace CompiledGlob

open Glob (Part)
open Regex (SpansUnder)

variable {group rest : List Char} {options : Option MatchOptions} {negated : Option Bool}
  {serial : Nat} {g once : CompiledGlob} {body : Glob} {mark : Char}

/-- A pattern that keeps within a segment accepts a candidate as it stands or not at all. -/
theorem accepts_eq_isFoundIn (h : ∀ c, g.isFoundIn c = true → '/' ∉ c) (c : List Char) :
    g.accepts c = g.isFoundIn c := by
  rw [Bool.eq_iff_iff, accepts_iff]
  refine or_iff_left_of_imp fun hunified => ?_
  by_cases hback : '\\' ∈ c
  · exact absurd (Path.separator_mem_unify hback) (h _ hunified)
  · rwa [Path.unify_of_not_mem hback] at hunified

section Group

variable (hdot : MatchOptions.matchesDot options = true) (hslash : '/' ∉ mark :: group)
  (hmark : Glob.isGroupMark mark = true) (hstar : mark ≠ '*')
  (hread : Glob.read group = .group .parens body (Glob.read rest))
  (h : ofPattern (mark :: group) options negated serial = .ok g)

include hdot hslash hmark hstar hread h

/-- Where wildcards match leading dots, a pattern of one segment that begins with a marked group
    accepts what the group with the rest spans. -/
theorem isFoundIn_iff_marked (c : List Char) :
    g.isFoundIn c = true ↔ SpansUnder g.regex.flags c
      (Glob.marked mark (Part.join (Glob.parts '|' false body))
        (Glob.parts '/' false (Glob.read rest)).1) c [] := by
  have hbare : (Glob.read (mark :: group)).hasBare '/' = false :=
    Glob.hasBare_of_not_mem_text (by rwa [Glob.text_read])
  have hstars := @not_isGlobstar_read mark group (.inl hstar)
  rw [isFoundIn_iff_segment (currentDirectory?_eq_none (.inr hslash)) hbare hstars h, hdot,
    Glob.segment_of_not_isGlobstar true hstars, Glob.read_mark hmark, hread,
    Glob.regex_parts_marked hmark]
  exact Iff.rfl

/-- If its classes match no separator, then it keeps within a segment. -/
theorem accepts_marked (hclasses : (Glob.group .parens body (Glob.read rest)).Separated)
    (c : List Char) : g.accepts c = g.isFoundIn c := by
  refine accepts_eq_isFoundIn (fun c hc => ?_) c
  rw [isFoundIn_iff_marked hdot hslash hmark hstar hread h, ← Glob.regex_parts_marked hmark] at hc
  have hmarked : (Glob.char mark (.group .parens body (Glob.read rest))).Separated := hclasses
  obtain ⟨x, hx, hcx⟩ := (Glob.local_spansUnder_parts hmarked).within c [] hc
  rwa [hcx, List.append_nil]

end Group

section Negated

variable (hdot : MatchOptions.matchesDot options = true) (hslash : '/' ∉ '!' :: group)
  (hread : Glob.read group = .group .parens body (Glob.read rest))
  (h : ofPattern ('!' :: group) options negated serial = .ok g)
  (honce : ofPattern ('@' :: group) options negated serial = .ok once)

include hslash hread in
/-- Whether the group looks at the rest is told by the text there. -/
theorem holdsNegation_rest :
    (Glob.parts '/' false (Glob.read rest)).1.holdsNegation = true ↔ ['!', '('] <:+: rest := by
  have hslashRest : '/' ∉ (Glob.read rest).text := fun hmem => by
    refine hslash (List.mem_cons_of_mem _ ?_)
    rw [← Glob.text_read group, hread, Glob.text]
    exact List.mem_append_right _ (List.mem_cons_of_mem _ hmem)
  rw [Part.holdsNegation, Glob.occursIn_iff,
    Glob.text_fst_parts false (Glob.hasBare_of_not_mem_text hslashRest), Glob.text_read]

include hdot hslash hread h

theorem isFoundIn_negated_group (c : List Char) :
    g.isFoundIn c = true ↔ SpansUnder g.regex.flags c
      (Regex.exceptFor (Part.join (Glob.parts '|' false body))
        (if (Glob.parts '/' false (Glob.read rest)).1.holdsNegation then .done
          else (Glob.parts '/' false (Glob.read rest)).1.regex)
        (Glob.parts '/' false (Glob.read rest)).1.regex) c [] := by
  rw [isFoundIn_iff_marked hdot hslash rfl (by decide) hread h, Glob.marked_negated]

include honce

theorem isFoundIn_once_group (c : List Char) :
    once.isFoundIn c = true ↔ SpansUnder g.regex.flags c
      (.group .plain (Part.join (Glob.parts '|' false body)) .once
        (Glob.parts '/' false (Glob.read rest)).1.regex) c [] := by
  have hslashOnce : '/' ∉ '@' :: group := by simpa using hslash
  rw [isFoundIn_iff_marked hdot hslashOnce rfl (by decide) hread honce,
    Glob.marked_of_ne rfl (by decide), flags_eq h honce rfl]
  exact Iff.rfl

/-- If it looks at the rest, nothing is found by both patterns. -/
theorem not_isFoundIn_negated_and_once (hno : ¬ ['!', '('] <:+: rest) (c : List Char) :
    ¬ (g.isFoundIn c = true ∧ once.isFoundIn c = true) := by
  rw [isFoundIn_negated_group hdot hslash hread h, isFoundIn_once_group hdot hslash hread h honce,
    if_neg (mt (holdsNegation_rest hslash hread).mp hno)]
  exact fun hboth => Regex.not_spansUnder_exceptFor
    (Glob.barFree_parts '/' false _ _ List.mem_cons_self) hboth.2 hboth.1

/-- If it does not, both patterns find what the group matches with the rest but not alone. -/
theorem isFoundIn_negated_and_once {lone : List Char} {alone : CompiledGlob}
    (hslashAlone : '/' ∉ '@' :: lone)
    (hreadAlone : Glob.read lone = .group .parens body (Glob.read []))
    (halone : ofPattern ('@' :: lone) options negated serial = .ok alone)
    (hclasses : (Glob.group .parens body (Glob.read rest)).Separated)
    (hbehind : ['!', '('] <:+: rest) (c : List Char) :
    (g.isFoundIn c = true ∧ once.isFoundIn c = true) ↔
      once.isFoundIn c = true ∧ alone.isFoundIn c = false := by
  have hfoundAlone := isFoundIn_iff_marked hdot hslashAlone rfl (by decide) hreadAlone halone c
  rw [Glob.marked_of_ne rfl (by decide), flags_eq h halone rfl] at hfoundAlone
  rw [← Bool.not_eq_true, isFoundIn_negated_group hdot hslash hread h,
    isFoundIn_once_group hdot hslash hread h honce, hfoundAlone,
    if_pos ((holdsNegation_rest hslash hread).mpr hbehind)]
  exact Regex.spansUnder_exceptFor_and_once
    (@Glob.local_insideUnder g.regex.flags c _ hclasses.2.1 hclasses.1)
    (@Glob.local_spansUnder_parts g.regex.flags c _ hclasses.2.2)
    (Glob.barFree_parts '/' false _ _ List.mem_cons_self)

end Negated

/-- **A negated group and the same group taken once** exclude each other if the text behind the
    group holds no `!(`. If it holds one, then the two patterns accept in common what is accepted
    with the group taken once but not by the group alone. -/
theorem ofPattern_negated_or_once {inside : List Char}
    (hdot : MatchOptions.matchesDot options = true)
    (hpair : (1, inside.length + 2) ∈ Glob.pairsOf ('!' :: '(' :: (inside ++ ')' :: rest)))
    (hslash : '/' ∉ '!' :: '(' :: (inside ++ ')' :: rest))
    (h : ofPattern ('!' :: '(' :: (inside ++ ')' :: rest)) options negated serial = .ok g) :
    ∃ once, ofPattern ('@' :: '(' :: (inside ++ ')' :: rest)) options negated serial = .ok once ∧
      (¬ ['!', '('] <:+: rest → ∀ c, ¬ (g.isFoundIn c = true ∧ once.isFoundIn c = true)) ∧
      ((Glob.read ('!' :: '(' :: (inside ++ ')' :: rest))).Separated →
        (¬ ['!', '('] <:+: rest → ∀ c, ¬ (g.accepts c = true ∧ once.accepts c = true)) ∧
        (['!', '('] <:+: rest →
          Glob.read ('(' :: (inside ++ ')' :: rest)) =
            Glob.read ('(' :: (inside ++ [')'])) ++ Glob.read rest →
          ∃ alone, ofPattern ('@' :: '(' :: (inside ++ [')'])) options negated serial = .ok alone ∧
            ∀ c, (g.accepts c = true ∧ once.accepts c = true ↔
              once.accepts c = true ∧ alone.accepts c = false))) := by
  obtain ⟨body, hreadMarked⟩ := Glob.exists_read_marked rfl hpair
  have hread : Glob.read ('(' :: (inside ++ ')' :: rest)) =
      .group .parens body (Glob.read rest) := by
    have hnegated := hreadMarked '!' rfl
    rw [Glob.read_mark rfl] at hnegated
    exact (Glob.char.inj hnegated).2
  have hslashOnce : '/' ∉ '@' :: '(' :: (inside ++ ')' :: rest) := by simpa using hslash
  have hbody (pattern : List Char) (hno : '/' ∉ pattern) : Segmentation.body pattern = pattern :=
    Segmentation.body_eq_self (.inr hno)
  -- the classes of the other patterns are among those of the first
  obtain ⟨once, honce⟩ : ∃ g', ofPattern ('@' :: '(' :: (inside ++ ')' :: rest)) options negated
      serial = .ok g' := by
    refine exists_ofPattern_of_inOrder h rfl fun hin => ?_
    rw [hbody _ hslash, hreadMarked '!' rfl] at hin
    rw [hbody _ hslashOnce, hreadMarked '@' rfl]
    exact hin
  have hexclude := not_isFoundIn_negated_and_once hdot hslash hread h honce
  refine ⟨once, honce, hexclude, fun hclasses => ?_⟩
  rw [hreadMarked '!' rfl] at hclasses
  have haccepts := accepts_marked hdot hslash rfl (by decide) hread h hclasses
  have hacceptsOnce := accepts_marked hdot hslashOnce rfl (by decide) hread honce hclasses
  refine ⟨fun hno c => ?_, fun hbehind halike => ?_⟩
  · rw [haccepts, hacceptsOnce]
    exact hexclude hno c
  · have hreadAlone : Glob.read ('(' :: (inside ++ [')'])) = .group .parens body (Glob.read []) :=
      Glob.eq_group_of_append_eq (halike.symm.trans hread)
    have hslashAlone : '/' ∉ '@' :: '(' :: (inside ++ [')']) := by
      simp only [List.mem_cons, List.mem_append, not_or] at hslash ⊢
      simp [hslash]
    obtain ⟨alone, halone⟩ : ∃ g', ofPattern ('@' :: '(' :: (inside ++ [')'])) options negated
        serial = .ok g' := by
      refine exists_ofPattern_of_inOrder h rfl fun hin => ?_
      rw [hbody _ hslash, hreadMarked '!' rfl] at hin
      rw [hbody _ hslashAlone, Glob.read_mark rfl, hreadAlone]
      have hgroup : (Glob.group .parens body (Glob.read rest)).InOrder := hin
      have halone : (Glob.group .parens body (Glob.read [])).InOrder :=
        Glob.inOrder_group.mpr ⟨(Glob.inOrder_group.mp hgroup).1, List.forall_mem_nil _⟩
      exact halone
    have hacceptsAlone := accepts_marked hdot hslashAlone rfl (by decide) hreadAlone halone
      ⟨hclasses.1, hclasses.2.1, trivial⟩
    refine ⟨alone, halone, fun c => ?_⟩
    rw [haccepts, hacceptsOnce, hacceptsAlone]
    exact isFoundIn_negated_and_once hdot hslash hread h honce hslashAlone hreadAlone halone hclasses
      hbehind c

/-- A negated group that an escaped opener follows, in an alternative of which another negated group
    stands. -/
theorem ofPattern_negated_or_once_escaped :
    ∃ g once alone, ofPattern "!(a|b!(c))\\!(?".toList (some { dot := true }) none 0 = .ok g ∧
      ofPattern "@(a|b!(c))\\!(?".toList (some { dot := true }) none 0 = .ok once ∧
      ofPattern "@(a|b!(c))".toList (some { dot := true }) none 0 = .ok alone ∧
        ∀ c, (g.accepts c = true ∧ once.accepts c = true ↔
          once.accepts c = true ∧ alone.accepts c = false) := by
  have h : ofPattern "!(a|b!(c))\\!(?".toList (some { dot := true }) none 0 = .ok _ := rfl
  obtain ⟨once, honce, -, hlaw⟩ := @ofPattern_negated_or_once "\\!(?".toList (some { dot := true }) none 0
    _ "a|b!(c)".toList rfl (by decide) (by decide) h
  obtain ⟨alone, halone, hcommon⟩ := (hlaw (by decide)).2 (by decide) (by decide)
  exact ⟨_, once, alone, h, honce, halone, hcommon⟩

/-- A negated group does not look at what follows where a negated class holds the two characters
    that would open another group. -/
theorem ofPattern_negated_and_once :
    ∃ g once, ofPattern "!(a)[!(]".toList (some { dot := true }) none 0 = .ok g ∧
      ofPattern "@(a)[!(]".toList (some { dot := true }) none 0 = .ok once ∧
        g.accepts "ab".toList = true ∧ once.accepts "ab".toList = true := by
  have h : ofPattern "!(a)[!(]".toList (some { dot := true }) none 0 = .ok _ := rfl
  have honce : ofPattern "@(a)[!(]".toList (some { dot := true }) none 0 = .ok _ := rfl
  exact ⟨_, _, h, honce, by decide +kernel, by decide +kernel⟩

end CompiledGlob

end Wildcard
