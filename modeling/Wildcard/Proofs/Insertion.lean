import Wildcard.Proofs.Glob.Pieces
import Wildcard.Proofs.Shortcut

/-!
# A star in front of a marked group

A star may stand for the empty text, so putting one in front of a group should lose no match. It
does not as long as the mark of the group is no star itself. But stars side by side are one
wildcard, and only the first of them can mark a group: with another star in front, the star that
marks the group is taken into the wildcard, and the group is taken exactly once.

* `Regex.spansUnder_repeated`: of a group that is taken any number of times, a wildcard can stand for
  all but the last.
* `ofPattern_star_before_group`: what a star put in front of a marked group does. In front of a
  starred one, what is accepted is lost only if the group was taken not at all.
-/

namespace Wildcard

/-! ## 1. Regexes -/

namespace Regex

variable {flags : Flags} {text u v : List Char} {front body rest : Regex}

/-- A wildcard may stand for nothing. -/
theorem spansUnder_stars_of_rest (hfront : front.BarFree) (hrest : rest.BarFree)
    (h : SpansUnder flags text (front ++ rest) u v) :
    SpansUnder flags text (front ++ single .notSeparator .star rest) u v := by
  obtain ⟨w, hw, hv⟩ := (spansUnder_append hfront hrest).mp h
  refine (spansUnder_append hfront (s := single .notSeparator .star rest) hrest).mpr ⟨w, hw, ?_⟩
  exact (spansUnder_stars hrest).mpr ⟨[], w, by simp, rfl, hv⟩

/-- A group that is taken any number of times may be taken not at all. -/
theorem spansUnder_repeated_of_rest (hfront : front.BarFree) (hrest : rest.BarFree)
    (h : SpansUnder flags text (front ++ rest) u v) :
    SpansUnder flags text (front ++ group .plain body .star rest) u v := by
  obtain ⟨w, hw, hv⟩ := (spansUnder_append hfront hrest).mp h
  refine (spansUnder_append hfront (s := group .plain body .star rest) hrest).mpr ⟨w, hw, ?_⟩
  exact (spansUnder_group hrest).mpr ⟨w, .refl, hv⟩

/-- **Of a group that is taken any number of times** and stays in its segment, a wildcard can stand
    for all but the last; or else the group is taken not at all. -/
theorem spansUnder_repeated (hbody : Local (InsideUnder flags text body)) (hfront : front.BarFree)
    (hrest : rest.BarFree) (h : SpansUnder flags text (front ++ group .plain body .star rest) u v) :
    SpansUnder flags text (front ++ single .notSeparator .star (group .plain body .once rest)) u v ∨
      SpansUnder flags text (front ++ rest) u v := by
  have honce : (group .plain body .once rest).BarFree := hrest
  have hstars : (single .notSeparator .star (group .plain body .once rest)).BarFree := hrest
  obtain ⟨w, hw, hv⟩ := (spansUnder_append hfront (s := group .plain body .star rest) hrest).mp h
  obtain ⟨m, hm, hend⟩ := (spansUnder_group hrest).mp hv
  rcases Relation.ReflTransGen.cases_tail hm with rfl | ⟨b, hb, hlast⟩
  · exact .inr ((spansUnder_append hfront hrest).mpr ⟨m, hw, hend⟩)
  · -- all but the last repetition is a stretch without separators
    obtain ⟨x, hx, rfl⟩ := hbody.repeated.within w b hb
    have hgroup : SpansUnder flags text (group .plain body .once rest) b v :=
      (spansUnder_group hrest).mpr ⟨m, hlast, hend⟩
    exact .inl ((spansUnder_append hfront hstars).mpr
      ⟨_, hw, (spansUnder_stars honce).mpr ⟨x, b, hx, rfl, hgroup⟩⟩)

end Regex

/-! ## 2. Patterns -/

namespace Glob

variable {body rest : Glob} {mark : Char}

/-- A marked group that is not negated, in front of the rest of a part. -/
theorem regex_parts_marked_of_ne (hmark : isGroupMark mark = true) (hneg : mark ≠ '!') :
    (parts '/' false (char mark (group .parens body rest))).1.regex =
      .group .plain (Part.join (parts '|' false body)) (quantifierOf mark)
        (parts '/' false rest).1.regex := by
  rw [regex_parts_marked hmark, marked_of_ne hmark hneg]

/-- **A star in front of a marked group** is a wildcard. A star that marks the group belongs to the
    same wildcard, and the group has no mark any more. -/
theorem regex_parts_star_marked (hmark : isGroupMark mark = true) (hneg : mark ≠ '!') :
    (parts '/' false (char '*' (char mark (group .parens body rest)))).1.regex =
      .single .notSeparator .star (.group .plain (Part.join (parts '|' false body))
        (if mark = '*' then .once else quantifierOf mark) (parts '/' false rest).1.regex) := by
  by_cases hstar : mark = '*'
  · subst hstar
    rw [parts_char '/' false '*' id, parts]
    rfl
  · have hhead : (char mark (group .parens body rest)).text.head? ≠ some '*' :=
      fun h => hstar (Option.some.inj h)
    rw [regex_parts_star (by exact id) hhead, regex_parts_marked_of_ne hmark hneg, if_neg hstar]

/-- A group whose mark stands behind characters that stand for themselves. -/
theorem exists_read_marked_behind {word inside rest : List Char}
    (hword : ∀ c ∈ word, StandsForItself c) (hmark : isGroupMark mark = true)
    (h : (word.length + 1, word.length + inside.length + 2) ∈
      pairsOf (word ++ mark :: '(' :: (inside ++ ')' :: rest))) :
    ∃ body, read ('(' :: (inside ++ ')' :: rest)) = group .parens body (read rest) := by
  have hlength : (chars word).length = word.length := by
    rw [← length_text, text_chars]
  rw [pairsOf, read_append_of_standsForItself hword, read_mark hmark, pairs_append, pairs_chars,
    hlength, List.nil_append, pairs, Nat.zero_add,
    show word.length + inside.length + 2 = word.length + 1 + inside.length + 1 by omega] at h
  obtain ⟨body, hread, -⟩ := @read_paired .parens inside rest (word.length + 1) h
  exact ⟨body, hread⟩

end Glob

/-! ## 3. Compiled patterns -/

namespace CompiledGlob

open Glob (StandsForItself Part quantifierOf)
open Regex (SpansUnder)

variable {word group rest : List Char} {mark : Char} {options : Option MatchOptions}
  {negated : Option Bool} {serial : Nat} {g starred once without : CompiledGlob} {body : Glob}

section Group

variable (hne : word ≠ []) (hword : ∀ c ∈ word, StandsForItself c)
  (hread : Glob.read group = .group .parens body (Glob.read rest))
  (hbare : (Glob.read rest).hasBare '/' = false) (hmark : Glob.isGroupMark mark = true)
  (hneg : mark ≠ '!')

include hne hword hread hbare hmark hneg

/-- A marked group behind a word is taken as often as its mark says. -/
theorem isFoundIn_marked_behind
    (h : ofPattern (word ++ mark :: group) options negated serial = .ok g) (c : List Char) :
    g.isFoundIn c = true ↔ SpansUnder g.regex.flags c
      (Regex.chars word ++ .group .plain (Part.join (Glob.parts '|' false body))
        (quantifierOf mark) (Glob.parts '/' false (Glob.read rest)).1.regex) c [] := by
  have hreadMarked : Glob.read (mark :: group) =
      .char mark (.group .parens body (Glob.read rest)) := by
    rw [Glob.read_mark hmark, hread]
  have hbareMarked : (Glob.read (mark :: group)).hasBare '/' = false := by
    rw [hreadMarked]
    exact Glob.hasBare_marked hmark hbare
  rw [isFoundIn_iff_of_word hne hword hbareMarked h, hreadMarked,
    Glob.regex_parts_marked_of_ne hmark hneg]

/-- With a star in front it is taken behind a wildcard, and once if a star was its mark. -/
theorem isFoundIn_starred_behind
    (h : ofPattern (word ++ '*' :: mark :: group) options negated serial = .ok g) (c : List Char) :
    g.isFoundIn c = true ↔ SpansUnder g.regex.flags c
      (Regex.chars word ++ .single .notSeparator .star
        (.group .plain (Part.join (Glob.parts '|' false body))
          (if mark = '*' then .once else quantifierOf mark)
          (Glob.parts '/' false (Glob.read rest)).1.regex)) c [] := by
  have hreadStarred : Glob.read ('*' :: mark :: group) =
      .char '*' (.char mark (.group .parens body (Glob.read rest))) := by
    rw [Glob.read_mark rfl, Glob.read_mark hmark, hread]
  have hbareStarred : (Glob.read ('*' :: mark :: group)).hasBare '/' = false := by
    rw [hreadStarred]
    exact Glob.hasBare_marked hmark hbare
  rw [isFoundIn_iff_of_word hne hword hbareStarred h, hreadStarred,
    Glob.regex_parts_star_marked hmark hneg]

/-- A star in front of a group with another mark loses no match. -/
theorem accepts_of_unstarred (hstar : mark ≠ '*')
    (h : ofPattern (word ++ mark :: group) options negated serial = .ok g)
    (hstarred : ofPattern (word ++ '*' :: mark :: group) options negated serial = .ok starred)
    (c : List Char) (hc : g.accepts c = true) : starred.accepts c = true := by
  refine accepts_mono (fun c hc => ?_) c hc
  rw [isFoundIn_starred_behind hne hword hread hbare hmark hneg hstarred, flags_eq h hstarred rfl,
    if_neg hstar]
  exact Regex.spansUnder_stars_of_rest (Regex.barFree_chars word)
    (Glob.barFree_parts '/' false _ _ List.mem_cons_self)
    ((isFoundIn_marked_behind hne hword hread hbare hmark hneg h c).mp hc)

end Group

section Starred

variable (hne : word ≠ []) (hword : ∀ c ∈ word, StandsForItself c)
  (hread : Glob.read group = .group .parens body (Glob.read rest))
  (hbare : (Glob.read rest).hasBare '/' = false)

include hne hword hread hbare

/-- A star in front of a starred group leaves a group that is taken once. -/
theorem accepts_starred_eq_once
    (hstarred : ofPattern (word ++ '*' :: '*' :: group) options negated serial = .ok starred)
    (honce : ofPattern (word ++ '*' :: '@' :: group) options negated serial = .ok once)
    (c : List Char) : starred.accepts c = once.accepts c := by
  have hsame (c : List Char) : starred.isFoundIn c = once.isFoundIn c := by
    rw [Bool.eq_iff_iff,
      isFoundIn_starred_behind hne hword hread hbare (rfl : Glob.isGroupMark '*' = true) (by decide)
        hstarred,
      isFoundIn_starred_behind hne hword hread hbare (rfl : Glob.isGroupMark '@' = true) (by decide)
        honce, flags_eq hstarred honce rfl]
    exact Iff.rfl
  rw [accepts, accepts, hsame, hsame]

variable (h : ofPattern (word ++ '*' :: group) options negated serial = .ok g)
  (hwithout : ofPattern (word ++ rest) options negated serial = .ok without)

include h hwithout

/-- A starred group need not be taken. -/
theorem accepts_of_without (c : List Char) (hc : without.accepts c = true) :
    g.accepts c = true := by
  refine accepts_mono (fun c hc => ?_) c hc
  rw [isFoundIn_iff_of_word hne hword hbare hwithout, flags_eq h hwithout rfl] at hc
  exact (isFoundIn_marked_behind hne hword hread hbare rfl (by decide) h c).mpr
    (Regex.spansUnder_repeated_of_rest (Regex.barFree_chars word)
      (Glob.barFree_parts '/' false _ _ List.mem_cons_self) hc)

/-- If it is taken, then a wildcard can stand for all but the last time. -/
theorem accepts_starred_or_without
    (hstarred : ofPattern (word ++ '*' :: '*' :: group) options negated serial = .ok starred)
    (hclasses : (Glob.read group).Separated) (c : List Char) (hc : g.accepts c = true) :
    starred.accepts c = true ∨ without.accepts c = true := by
  rw [hread] at hclasses
  have hfound (c : List Char) (hc : g.isFoundIn c = true) :
      starred.isFoundIn c = true ∨ without.isFoundIn c = true := by
    rw [isFoundIn_starred_behind hne hword hread hbare (rfl : Glob.isGroupMark '*' = true)
      (by decide) hstarred, flags_eq h hstarred rfl,
      isFoundIn_iff_of_word hne hword hbare hwithout, flags_eq h hwithout rfl]
    exact Regex.spansUnder_repeated (Glob.local_insideUnder hclasses.2.1 hclasses.1)
      (Regex.barFree_chars word) (Glob.barFree_parts '/' false _ _ List.mem_cons_self)
      ((isFoundIn_marked_behind hne hword hread hbare rfl (by decide) h c).mp hc)
  simp only [accepts_iff] at hc ⊢
  rcases hc with hc | hc
  · exact (hfound c hc).imp .inl .inl
  · exact (hfound _ hc).imp .inr .inr

end Starred

/-- **A star put in front of a marked group** loses no match if the mark is no star. A star in front
    of a starred group makes it a group that is taken once, behind a wildcard; what is accepted then
    is lost only if it is accepted without the group, as long as the separators of the pattern all
    divide segments. -/
theorem ofPattern_star_before_group {inside : List Char} (hne : word ≠ [])
    (hword : ∀ c ∈ word, StandsForItself c) (hmark : mark ∈ ['@', '?', '*', '+'])
    (hpair : (word.length + 1, word.length + inside.length + 2) ∈
      Glob.pairsOf (word ++ mark :: '(' :: (inside ++ ')' :: rest)))
    (hslash : '/' ∉ rest)
    (h : ofPattern (word ++ mark :: '(' :: (inside ++ ')' :: rest)) options negated serial =
      .ok g) :
    ∃ starred, ofPattern (word ++ '*' :: mark :: '(' :: (inside ++ ')' :: rest)) options negated
        serial = .ok starred ∧
      (mark ≠ '*' → ∀ c, g.accepts c = true → starred.accepts c = true) ∧
      (mark = '*' → ∃ once without,
        ofPattern (word ++ '*' :: '@' :: '(' :: (inside ++ ')' :: rest)) options negated serial =
            .ok once ∧
          (∀ c, starred.accepts c = once.accepts c) ∧
          ofPattern (word ++ rest) options negated serial = .ok without ∧
          (∀ c, without.accepts c = true → g.accepts c = true) ∧
          ((Glob.read ('(' :: (inside ++ ')' :: rest))).Separated →
            (∀ c, g.accepts c = true → starred.accepts c = true ∨ without.accepts c = true) ∧
              ((∀ c, g.accepts c = true → starred.accepts c = true) ↔
                ∀ c, without.accepts c = true → starred.accepts c = true))) := by
  have hmarks : ['@', '?', '*', '+'].all (fun x => Glob.isGroupMark x && x != '!') = true := rfl
  obtain ⟨hgroupMark, hother⟩ := Bool.and_eq_true_iff.mp (List.all_eq_true.mp hmarks mark hmark)
  have hneg : mark ≠ '!' := bne_iff_ne.mp hother
  obtain ⟨body, hread⟩ := Glob.exists_read_marked_behind hword hgroupMark hpair
  have hbare : (Glob.read rest).hasBare '/' = false :=
    Glob.hasBare_of_not_mem_text (by rwa [Glob.text_read])
  -- the classes of all these patterns are those of the first
  have hranges {tail : List Char}
      (htail : (Glob.group .parens body (Glob.read rest)).InOrder → (Glob.read tail).InOrder) :
      ∃ g', ofPattern (word ++ tail) options negated serial = .ok g' := by
    refine exists_ofPattern_of_word hne hword h fun hin => htail ?_
    rw [Glob.read_mark hgroupMark, hread] at hin
    exact hin
  have hstarred {c : Char} (hc : Glob.isGroupMark c = true) :
      ∃ g', ofPattern (word ++ '*' :: c :: '(' :: (inside ++ ')' :: rest)) options negated serial =
        .ok g' := by
    refine hranges fun hin => ?_
    rw [Glob.read_mark rfl, Glob.read_mark hc, hread]
    exact hin
  obtain ⟨starred, hcompiled⟩ := hstarred hgroupMark
  refine ⟨starred, hcompiled, fun hstar =>
    accepts_of_unstarred hne hword hread hbare hgroupMark hneg hstar h hcompiled, ?_⟩
  rintro rfl
  obtain ⟨once, honce⟩ := hstarred (c := '@') rfl
  obtain ⟨without, hwithout⟩ := hranges fun hin => (Glob.inOrder_group.mp hin).2
  have hmore := accepts_of_without hne hword hread hbare h hwithout
  refine ⟨once, without, honce, accepts_starred_eq_once hne hword hread hbare hcompiled honce,
    hwithout, hmore, fun hclasses => ?_⟩
  have hcover := accepts_starred_or_without hne hword hread hbare h hwithout hcompiled hclasses
  exact ⟨hcover, fun hall c hc => hall c (hmore c hc), fun hall c hc => (hcover c hc).elim id (hall c)⟩

/-- A starred group that is not taken, and one that is taken twice. -/
theorem ofPattern_star_before_group_repeated :
    ∃ g starred, ofPattern "x*(a|b[c-d])*.t".toList none none 0 = .ok g ∧
      ofPattern "x**(a|b[c-d])*.t".toList none none 0 = .ok starred ∧
        ((∀ c, g.accepts c = true → starred.accepts c = true) ↔
          ∀ without, ofPattern "x*.t".toList none none 0 = .ok without →
            ∀ c, without.accepts c = true → starred.accepts c = true) := by
  have h : ofPattern "x*(a|b[c-d])*.t".toList none none 0 = .ok _ := rfl
  obtain ⟨starred, hstarred, -, hlaw⟩ := @ofPattern_star_before_group ['x'] "*.t".toList '*' none none 0 _
    "a|b[c-d]".toList (by decide) (List.forall_mem_singleton.mpr (by decide)) (by decide) (by decide)
    (by decide) h
  obtain ⟨once, without, -, -, hwithout, -, hexact⟩ := hlaw rfl
  refine ⟨_, starred, h, hstarred, ((hexact (by decide)).2).trans ?_⟩
  constructor
  · intro hall without' hwithout'
    rw [show ofPattern "x*.t".toList none none 0 = .ok without from hwithout] at hwithout'
    cases hwithout'
    exact hall
  · intro hall
    exact hall without hwithout

/-- A starred group that is not taken is lost behind another star. -/
theorem ofPattern_star_before_starred_group :
    ∃ g starred, ofPattern "x*(a)".toList none none 0 = .ok g ∧
      ofPattern "x**(a)".toList none none 0 = .ok starred ∧
        g.accepts "x".toList = true ∧ starred.accepts "x".toList = false := by
  have h : ofPattern "x*(a)".toList none none 0 = .ok _ := rfl
  have hstarred : ofPattern "x**(a)".toList none none 0 = .ok _ := rfl
  exact ⟨_, _, h, hstarred, by decide +kernel, by decide +kernel⟩

end CompiledGlob

end Wildcard
