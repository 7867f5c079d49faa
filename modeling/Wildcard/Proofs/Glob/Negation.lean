import Wildcard.Proofs.Compilation
import Wildcard.Proofs.Glob.Pairing

/-!
# Negated groups are differences

In a pattern of one segment, a negated group at the beginning matches whatever the rest of the
pattern leaves for it, unless the group itself would match there. So the pattern accepts what it
accepts with a star in place of the group, less what it accepts with the group taken once.

* `Regex.spans_exceptFor_iff`: the difference, for regexes that stay in their segment.
* `Matcher.isFoundIn_negated`: the difference, for compiled patterns. The three patterns are read
  separately; that they agree behind the group is `Glob.read_paired`.
-/

namespace Wildcard

/-! ## 1. Regexes -/

namespace Regex

variable {t : Subject} {u : List Char} {body rest : Regex}

/-- **A negated group with what follows it** reads a text to its end if any text in place of the
    group does, and the group does not. -/
theorem spans_exceptFor_iff (hrest : rest.BarFree) (hstays : Local (rest.Spans t))
    (hbody : Local ((grouped body .once ++ rest).Spans t)) :
    (exceptFor body rest rest).Spans t u [] ↔
      (single .notSeparator .star rest).Spans t u [] ∧
        ¬ (grouped body .once ++ rest).Spans t u [] := by
  have hwild : Single.notSeparator.Stays := rfl
  have hstar : Local ((single .notSeparator .star rest).Spans t) :=
    local_single hwild .star hrest hstays
  have hgroup {v : List Char} : (grouped body .once ++ rest).Spans t u v ↔
      ∃ m, body.Spans t u m ∧ rest.Spans t m v := spans_group hrest
  have hlazy {v : List Char} : (single .notSeparator .lazyStar done).Spans t u v ↔
      Quantifier.star.Spans (Reads (Single.notSeparator.accepts t.rule t.dotAll)) u v := by
    simp only [spans_single barFree_done, spans_done, exists_eq_right]
    rfl
  rw [spans_exceptFor hrest hrest]
  simp only [hlazy, ← hgroup]
  constructor
  · rintro ⟨m, ⟨hno, hm⟩, hend⟩
    exact ⟨(spans_single hrest).mpr ⟨m, hm, hend⟩, fun honce => hno ⟨[], honce, .inl rfl⟩⟩
  · rintro ⟨hany, hno⟩
    -- the text has no separator, so the end of its segment is its end
    obtain ⟨x, hx, hu⟩ := hstar.within u [] hany
    have hslash : '/' ∉ u := by rwa [hu, List.append_nil]
    obtain ⟨m, hm, hend⟩ := (spans_single hrest).mp hany
    refine ⟨m, ⟨fun honce => hno ?_, hm⟩, hend⟩
    obtain ⟨k, hk, hedge⟩ := honce
    obtain ⟨y, -, rfl⟩ := hbody.within u k hk
    rcases hedge with rfl | hhead
    · exact hk
    · obtain ⟨k', rfl⟩ := List.head?_eq_some_iff.mp hhead
      exact absurd (by simp) hslash

end Regex

/-! ## 2. Parts -/

namespace Glob

open Regex (grouped Single Translation)

theorem occursIn_iff (cs word : List Char) :
    Part.holdsNegation.occursIn cs word = true ↔ word <:+: cs := by
  induction cs with
  | nil => simp [Part.holdsNegation.occursIn]
  | cons c rest ih =>
    rw [Part.holdsNegation.occursIn, Bool.or_eq_true, ih, List.isPrefixOf_iff_prefix,
      List.infix_cons_iff]

/-- A bare character that is no mark of a group. -/
theorem parts_char (d : Char) (afterStar : Bool) (c : Char) {rest : Glob} (h : ¬ rest.OpensGroup) :
    parts d afterStar (char c rest) = place d afterStar c (parts d (c == '*') rest) :=
  parts.eq_3 d afterStar c rest fun body rest' hrest =>
    h (opensGroup_iff.mpr ⟨body, rest', hrest⟩)

/-- A star in front makes no difference unless another star comes next. -/
theorem parts_afterStar (d : Char) {g : Glob} (h : g.text.head? ≠ some '*') :
    parts d true g = parts d false g := by
  cases g with
  | done => rfl
  | char c rest =>
    have hc : (c == '*') = false := beq_false_of_ne fun hc => h (congrArg some hc)
    have hplace (ps : Part × List Part) : place d true c ps = place d false c ps := by
      rw [place_eq, place_eq, hc]
      rfl
    by_cases hopen : rest.OpensGroup
    · obtain ⟨body, rest', rfl⟩ := opensGroup_iff.mp hopen
      rw [parts, parts, hc, hplace]
      rfl
    · rw [parts_char d true c hopen, parts_char d false c hopen, hplace]
  | escaped c rest => rw [parts, parts]
  | bracket body rest => rw [parts, parts]
  | group k body rest =>
    cases k with
    | braces => rw [parts, parts]
    | parens => rw [parts, parts]

variable {body rest : Glob}

/-- The only part of a pattern without delimiters has the text of the pattern. -/
theorem text_fst_parts {d : Char} (afterStar : Bool) {g : Glob} (h : g.hasBare d = false) :
    (parts d afterStar g).1.text = g.text := by
  have htext := text_parts d afterStar g
  rw [snd_parts afterStar h, List.flatMap_nil, List.append_nil] at htext
  exact htext

/-- A group behind its mark. -/
theorem regex_parts_marked {c : Char} (hc : isGroupMark c = true) :
    (parts '/' false (char c (group .parens body rest))).1.regex =
      marked c (Part.join (parts '|' false body)) (parts '/' false rest).1 := by
  have hmark : (isGroupMark c && !(false && c == '*')) = true := by
    rw [hc]
    rfl
  rw [parts, if_pos hmark]

/-- A star that stands alone and marks no group. -/
theorem regex_parts_star (hopen : ¬ rest.OpensGroup) (hstar : rest.text.head? ≠ some '*') :
    (parts '/' false (char '*' rest)).1.regex =
      .single .notSeparator .star (parts '/' false rest).1.regex := by
  rw [parts_char '/' false '*' hopen, beq_self_eq_true, parts_afterStar '/' hstar]
  rfl

/-- A negated group looks at the rest of its part unless that holds the opener of another one. -/
theorem marked_negated (body : Regex) (p : Part) :
    marked '!' body p =
      Regex.exceptFor body (if p.holdsNegation then .done else p.regex) p.regex := by
  change (let tail := if p.holdsNegation then Regex.segmentEnd else p.regex ++ Regex.segmentEnd
    Regex.grouped _ .once ++ p.regex) = _
  cases p.holdsNegation <;> rfl

/-- A negated group that no other one follows. -/
theorem regex_parts_negated (hbare : rest.hasBare '/' = false)
    (hneg : ¬ ['!', '('] <:+: rest.text) :
    (parts '/' false (char '!' (group .parens body rest))).1.regex =
      Regex.exceptFor (Part.join (parts '|' false body)) (parts '/' false rest).1.regex
        (parts '/' false rest).1.regex := by
  have hholds : (parts '/' false rest).1.holdsNegation = false := by
    rw [← Bool.not_eq_true, Part.holdsNegation, occursIn_iff, text_fst_parts false hbare]
    exact hneg
  rw [regex_parts_marked rfl, marked_negated, hholds]
  rfl

/-- **A negated group in front of a pattern** that is not itself another group or a star spans
    what a star in its place spans and the group taken once does not. -/
theorem spans_parts_negated {t : Regex.Subject} {u : List Char}
    (hsep : (group .parens body rest).Separated) (hslash : '/' ∉ rest.text)
    (hopen : ¬ rest.OpensGroup) (hstar : rest.text.head? ≠ some '*')
    (hneg : ¬ ['!', '('] <:+: rest.text) :
    (parts '/' false (char '!' (group .parens body rest))).1.regex.Spans t u [] ↔
      (parts '/' false (char '*' rest)).1.regex.Spans t u [] ∧
        ¬ (parts '/' false (char '@' (group .parens body rest))).1.regex.Spans t u [] := by
  have hstays {g : Glob} (hg : g.Separated) :
      Translation Single.Stays True (parts '/' false g).1.regex :=
    (List.forall_mem_cons.mp
      (translation_parts admits_stays '/' false g (writtenIn_stays hg) (.inl trivial))).1
  have hrest := hstays hsep.2.2
  have honce : (parts '/' false (char '@' (group .parens body rest))).1.regex =
      grouped (Part.join (parts '|' false body)) .once ++ (parts '/' false rest).1.regex :=
    regex_parts_marked rfl
  have hgroup := hstays (g := char '@' (group .parens body rest)) hsep
  rw [honce] at hgroup ⊢
  rw [regex_parts_negated (hasBare_of_not_mem_text hslash) hneg, regex_parts_star hopen hstar]
  exact Regex.spans_exceptFor_iff hrest.barFree (Regex.local_spans hrest) (Regex.local_spans hgroup)

/-- The mark of a group is read as a bare character, whatever comes behind it. -/
theorem read_mark {c : Char} (hc : isGroupMark c = true) (cs : List Char) :
    read (c :: cs) = char c (read cs) := by
  have hmem := of_decide_eq_true hc
  simp only [List.mem_cons, List.not_mem_nil, or_false] at hmem
  rcases hmem with rfl | rfl | rfl | rfl | rfl
  · exact read_cons (by decide) (by decide) rfl cs
  · exact read_cons (by decide) (by decide) rfl cs
  · exact read_cons (by decide) (by decide) rfl cs
  · exact read_cons (by decide) (by decide) rfl cs
  · exact read_cons (by decide) (by decide) rfl cs

/-- Patterns that differ in the mark of their first group alone are read alike. -/
theorem exists_read_marked {inside rest : List Char} {mark : Char} (hmark : isGroupMark mark = true)
    (h : (1, inside.length + 2) ∈ pairsOf (mark :: '(' :: (inside ++ ')' :: rest))) :
    ∃ body, ∀ c, isGroupMark c = true →
      read (c :: '(' :: (inside ++ ')' :: rest)) = char c (group .parens body (read rest)) := by
  rw [pairsOf, read_mark hmark, pairs, Nat.zero_add,
    show inside.length + 2 = 1 + inside.length + 1 by omega] at h
  obtain ⟨body, hread, -⟩ := @read_paired .parens inside rest 1 h
  exact ⟨body, fun c hc => (read_mark hc _).trans (congrArg (char c) hread)⟩

end Glob

/-! ## 3. Compiled patterns -/

namespace CompiledGlob

variable {pattern : List Char} {options : Option MatchOptions} {negated : Option Bool}
  {serial : Nat}

/-- A pattern without separators compiles without flags exactly if the items of its classes are in
    order. -/
theorem exists_ofPattern_of_one_segment (negated : Option Bool) (serial : Nat)
    (hflags : MatchOptions.regexFlags options = .ok {}) (hslash : '/' ∉ pattern) :
    (∃ g, ofPattern pattern options negated serial = .ok g) ↔ (Glob.read pattern).InOrder := by
  rw [exists_ofPattern_iff_inOrder hflags rfl, Segmentation.inOrder_middle,
    Segmentation.body_eq_self (.inr hslash)]

/-- A compiled pattern of one segment that is no globstar accepts what its only part spans. -/
theorem isFoundIn_of_one_segment (hdot : MatchOptions.matchesDot options = true)
    (hflags : MatchOptions.regexFlags options = .ok {}) (hslash : '/' ∉ pattern)
    (hstars : ¬ (Glob.read pattern).IsGlobstar) {g : CompiledGlob}
    (hg : ofPattern pattern options negated serial = .ok g) (c : List Char) :
    g.isFoundIn c = true ↔ (Glob.parts '/' false (Glob.read pattern)).1.regex.Spans
      (Regex.Flags.subject {} c) c [] := by
  obtain ⟨hf, -⟩ := isFoundIn_ofPattern hg
  have hnone : g.regex.flags = {} := (Except.ok.inj (hflags.symm.trans hf)).symm
  rw [isFoundIn_iff_part hdot (by rw [hnone]) hslash hstars hg, hnone]

/-- A pattern is no globstar unless its first two characters are stars. -/
theorem not_isGlobstar_read {c : Char} {rest : List Char} (h : c ≠ '*' ∨ rest.head? ≠ some '*') :
    ¬ (Glob.read (c :: rest)).IsGlobstar := by
  rw [Glob.IsGlobstar, Glob.text_read]
  intro ⟨hlength, hall⟩
  cases rest with
  | nil => simp at hlength
  | cons c' rest =>
    simp only [List.all_cons, Bool.and_eq_true, beq_iff_eq] at hall
    rcases h with h | h
    · exact h hall.1
    · exact h (congrArg some hall.2.1)

end CompiledGlob

namespace Matcher

open CompiledGlob (exists_ofPattern_of_one_segment isFoundIn_of_one_segment not_isGlobstar_read)

/-- Options that let wildcards match a leading dot are options, so the cache is not read. -/
theorem makeRegex_snd_of_matchesDot (m : Matcher) (pattern : List Char) (negated : Option Bool)
    {options : Option MatchOptions} (hdot : MatchOptions.matchesDot options = true) :
    (m.makeRegex pattern options negated).2 =
      CompiledGlob.ofPattern pattern options negated m.made := by
  cases options with
  | none => cases hdot
  | some o =>
    unfold makeRegex
    cases CompiledGlob.ofPattern pattern (some o) negated m.made <;> rfl

/-- **The pattern of a negated group is a difference:** it accepts what the pattern with a star in
    place of the group accepts, less what the pattern with the group taken once accepts. Groups of
    any kind may stand inside the group, negated ones too. -/
theorem isFoundIn_negated (m : Matcher) (negated : Option Bool) {options : Option MatchOptions}
    {inside rest : List Char} {g : CompiledGlob}
    (hdot : MatchOptions.matchesDot options = true)
    (hflags : MatchOptions.regexFlags options = .ok {})
    (hpair : (1, inside.length + 2) ∈ Glob.pairsOf ('!' :: '(' :: (inside ++ ')' :: rest)))
    (hslash : '/' ∉ '!' :: '(' :: (inside ++ ')' :: rest))
    (hclasses : (Glob.read ('!' :: '(' :: (inside ++ ')' :: rest))).Separated)
    (hstar : rest.head? ≠ some '*') (hopen : rest.head? ≠ some '(')
    (hneg : ¬ ['!', '('] <:+: rest)
    (h : (m.makeRegex ('!' :: '(' :: (inside ++ ')' :: rest)) options negated).2 = .ok g) :
    ∃ any once, (m.makeRegex ('*' :: rest) options negated).2 = .ok any ∧
      (m.makeRegex ('@' :: '(' :: (inside ++ ')' :: rest)) options negated).2 = .ok once ∧
        ∀ c, g.isFoundIn c = true ↔ any.isFoundIn c = true ∧ once.isFoundIn c = false := by
  have hslashInner : '/' ∉ inside ++ ')' :: rest := fun hmem => hslash (by simp [hmem])
  have hslashOnce : '/' ∉ '@' :: '(' :: (inside ++ ')' :: rest) := by simpa using hslashInner
  have hslashRest : '/' ∉ rest := fun hmem => hslashInner (by simp [hmem])
  have hslashAny : '/' ∉ '*' :: rest := by simpa using hslashRest
  -- behind their first items the three patterns are read alike
  obtain ⟨body, hread⟩ := Glob.exists_read_marked rfl hpair
  have hreadNegated := hread '!' rfl
  have hreadOnce := hread '@' rfl
  have hreadAny : Glob.read ('*' :: rest) = .char '*' (Glob.read rest) := Glob.read_mark rfl rest
  -- their classes are those of the first, so all of them compile
  simp only [makeRegex_snd_of_matchesDot m _ negated hdot] at h ⊢
  have hranges := (exists_ofPattern_of_one_segment negated m.made hflags hslash).mp ⟨g, h⟩
  rw [hreadNegated] at hranges hclasses
  have hgroupRanges : (Glob.group .parens body (Glob.read rest)).InOrder := hranges
  obtain ⟨-, hrestRanges⟩ := Glob.inOrder_group.mp hgroupRanges
  obtain ⟨once, honce⟩ := (exists_ofPattern_of_one_segment negated m.made hflags hslashOnce).mpr
    (by rw [hreadOnce]; exact hranges)
  obtain ⟨any, hany⟩ := (exists_ofPattern_of_one_segment negated m.made hflags hslashAny).mpr
    (by rw [hreadAny]; exact hrestRanges)
  refine ⟨any, once, hany, honce, fun c => ?_⟩
  have hfound := isFoundIn_of_one_segment hdot hflags hslash
    (not_isGlobstar_read (.inl (by decide))) h c
  have hfoundOnce := isFoundIn_of_one_segment hdot hflags hslashOnce
    (not_isGlobstar_read (.inl (by decide))) honce c
  have hfoundAny := isFoundIn_of_one_segment hdot hflags hslashAny
    (not_isGlobstar_read (.inr hstar)) hany c
  rw [hreadNegated] at hfound
  rw [hreadOnce] at hfoundOnce
  rw [hreadAny] at hfoundAny
  have htext : (Glob.read rest).text = rest := Glob.text_read rest
  have hgroup : ¬ (Glob.read rest).OpensGroup := by
    intro hopens
    obtain ⟨body', rest', hrest⟩ := Glob.opensGroup_iff.mp hopens
    rw [hrest] at htext
    exact hopen (by rw [← htext]; rfl)
  rw [hfound, Glob.spans_parts_negated hclasses (by rwa [htext]) hgroup (by rwa [htext])
    (by rwa [htext]), ← hfoundAny, ← hfoundOnce, Bool.not_eq_true]

/-- A negated group with another one in it, which looks past the end of its own group. -/
theorem isFoundIn_negated_nested :
    ∃ g any once,
      (makeRegex {} "!(a!(b)|c).x".toList (some { dot := true }) none).2 = .ok g ∧
        (makeRegex {} "*.x".toList (some { dot := true }) none).2 = .ok any ∧
        (makeRegex {} "@(a!(b)|c).x".toList (some { dot := true }) none).2 = .ok once ∧
          ∀ c, g.isFoundIn c = true ↔ any.isFoundIn c = true ∧ once.isFoundIn c = false := by
  have h : (makeRegex {} "!(a!(b)|c).x".toList (some { dot := true }) none).2 = .ok _ := rfl
  obtain ⟨any, once, hany, honce, hfound⟩ := @isFoundIn_negated {} none (some { dot := true })
    "a!(b)|c".toList ".x".toList _ rfl rfl (by decide) (by decide) (by decide) (by decide)
    (by decide) (by decide) h
  exact ⟨_, any, once, h, hany, honce, hfound⟩

end Matcher

end Wildcard
