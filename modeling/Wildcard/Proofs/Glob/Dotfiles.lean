import Wildcard.Proofs.Glob.Alignment
import Wildcard.Proofs.Regex.Spots

/-!
# Dotfiles

Where wildcards are to leave leading dots alone, a pattern without dots should accept no path with
a segment that begins with a dot. A guard sees to that at the beginning of each segment of the
pattern, but only if the segment begins with a wildcard, a class or a marked group. A wildcard can
come to the beginning of a segment without a guard: as the first item of an alternative, behind
alternatives that may be empty, or behind a separator that divides no segments of the pattern.

* `hides_of_separated`: a pattern that is matched segment by segment, and begins no segment with a
  group without a mark, accepts no dotfile.
* `isFoundIn_hides_dotfiles`: in general the runs through the regex tell (`Segmentation.Exposed`).
-/

namespace Wildcard

open Regex (Flags SpansUnder)

/-! ## 1. What a segment begins with -/

namespace Glob

/-- The pattern begins with a group that has no mark. -/
def BeginsWithGroup : Glob → Prop
  | group _ _ _ => True
  | _ => False

instance decidableBeginsWithGroup : (g : Glob) → Decidable g.BeginsWithGroup
  | group _ _ _ => isTrue trivial
  | done => isFalse id
  | char _ _ => isFalse id
  | escaped _ _ => isFalse id
  | bracket _ _ => isFalse id

/-- A marked group of a pattern without dots has the guard of a wildcard. -/
theorem guard_marked {c : Char} {body rest : Glob} (hc : isGroupMark c = true)
    (hdot : '.' ∉ body.text) : (char c (group .parens body rest)).guard = .notDot .done := by
  have hnone : ((parts '|' false body).1 :: (parts '|' false body).2).filter
      (fun p => p.text.head? == some '.') = [] := by
    refine List.filter_eq_nil_iff.mpr fun p hp hhead => hdot ?_
    exact mem_text_parts hp '.' (List.mem_of_mem_head? (beq_iff_eq.mp hhead))
  rw [guard, if_pos hc]
  simp only [hnone]

/-- The regex begins with a character other than a dot, or it is empty. -/
def BeginsPlainly (r : Regex) : Prop := r = .done ∨ ∃ c rest, c ≠ '.' ∧ r = .char c rest

/-- An item that is no wildcard stands for itself at the beginning of a segment. -/
theorem beginsPlainly_place {c : Char} (h1 : c ≠ '*') (h2 : c ≠ '?') (hdot : c ≠ '.')
    (ps : Part × List Part) : BeginsPlainly (place '/' false c ps).1.regex := by
  rw [place_eq]
  split
  · exact .inl rfl
  · rename_i hsep
    refine .inr ⟨c, ps.1.regex, hdot, ?_⟩
    show bare c ps.1.regex = .char c ps.1.regex
    unfold bare
    split
    · exact absurd rfl h2
    · exact absurd rfl h1
    · exact absurd rfl hsep
    · rfl

/-- **A segment without dots begins with a guard or plainly**, unless it begins with a group. -/
theorem guarded_or_beginsPlainly {g : Glob} (hdot : '.' ∉ g.text) (hgroup : ¬ g.BeginsWithGroup) :
    (g.isMagic = true ∧ g.guard = .notDot .done) ∨
      (g.guard = .done ∧ BeginsPlainly (parts '/' false g).1.regex) := by
  cases g with
  | done => exact .inr ⟨rfl, .inl rfl⟩
  | escaped c rest =>
    simp only [text, List.mem_cons, not_or] at hdot
    exact .inr ⟨rfl, .inr ⟨c, _, Ne.symm hdot.2.1, rfl⟩⟩
  | bracket body rest => exact .inl ⟨rfl, rfl⟩
  | group k body rest => exact absurd trivial hgroup
  | char c rest =>
    rw [text, List.mem_cons, not_or] at hdot
    have hc : c ≠ '.' := Ne.symm hdot.1
    by_cases hopens : rest.OpensGroup
    · obtain ⟨body, rest', rfl⟩ := opensGroup_iff.mp hopens
      by_cases hmark : isGroupMark c = true
      · have hbody : '.' ∉ body.text := fun h => hdot.2 (by simp [text, h])
        exact .inl ⟨by simp [isMagic], guard_marked hmark hbody⟩
      · refine .inr ⟨by rw [guard, if_neg hmark], ?_⟩
        rw [parts, if_neg (by simp [hmark])]
        refine beginsPlainly_place ?_ ?_ hc _
        · exact fun h => hmark (by rw [h]; rfl)
        · exact fun h => hmark (by rw [h]; rfl)
    · have hno : ∀ body rest', rest = group .parens body rest' → False := fun body rest' h =>
        hopens (opensGroup_iff.mpr ⟨body, rest', h⟩)
      by_cases hwild : c = '*' ∨ c = '?'
      · refine .inl ⟨?_, by rw [guard.eq_2 _ _ hno, if_pos hwild]⟩
        rcases hwild with rfl | rfl
        · simp [isMagic]
        · simp [isMagic]
      · refine .inr ⟨by rw [guard.eq_2 _ _ hno, if_neg hwild], ?_⟩
        rw [parts.eq_3 _ _ _ _ hno]
        exact beginsPlainly_place (fun h => hwild (.inl h)) (fun h => hwild (.inr h)) hc _

end Glob

/-! ## 2. Segment by segment -/

section Segments

variable {flags : Flags} {text u v : List Char}

/-- What begins with a character other than a dot spans no text that begins with a dot. -/
theorem head_of_beginsPlainly {r : Regex} (hr : r.BarFree) (h : Glob.BeginsPlainly r)
    (hspan : SpansUnder flags text r u []) : u.head? ≠ some '.' := by
  rcases h with rfl | ⟨c, rest, hc, rfl⟩
  · rw [Regex.spansUnder_done] at hspan
    rw [hspan]
    exact nofun
  · have hrest : (rest.compared flags).BarFree := Regex.barFree_compared flags hr
    rw [SpansUnder, Regex.char, Regex.compared_single, Regex.spans_single hrest] at hspan
    obtain ⟨w, ⟨d, hd, hu⟩, -⟩ := hspan
    rw [hu]
    intro hhead
    have hdot : d = '.' := Option.some.inj hhead
    rw [hdot] at hd
    have hsame : (Regex.Single.literal (.quote c)).accepts flags.caseRule flags.dotAll '.' =
        ('.' == c) := by
      rw [Regex.Single.accepts, Regex.Literal.char_quote]
      exact Regex.acceptsChar_caseless Regex.caseless_dot flags.caseRule c
    have hread := hsame.symm.trans hd
    exact hc (beq_iff_eq.mp hread).symm

/-- A segment that does not begin with a group matches no name that begins with a dot. -/
theorem head_of_matches {g : Glob} (hwritten : g.WrittenIn Regex.Single.IsSpelled '/')
    (hdot : '.' ∉ g.text) (hgroup : ¬ g.BeginsWithGroup) (hstar : (g.segment false).kind ≠ .globstar) {x : List Char}
    (h : (g.segment false).Matches flags x) : x.head? ≠ some '.' := by
  have hspelled := Glob.translation_segment Glob.admits_isSpelled false hwritten (.inl trivial)
  obtain ⟨c, hcompile, hfound⟩ := h
  obtain ⟨-, hiff⟩ := Regex.isFoundIn_compile hspelled hcompile
  have hspan : SpansUnder flags x (g.segment false).regex x [] := (hiff x).mp hfound
  have hbar : (Glob.parts '/' false g).1.regex.BarFree :=
    (List.forall_mem_cons.mp (Glob.barFree_parts '/' false g)).1
  rw [Glob.segment_of_not_isGlobstar false (mt (Glob.kind_segment false g).mpr hstar)] at hspan
  rcases Glob.guarded_or_beginsPlainly hdot hgroup with ⟨hmagic, hguard⟩ | ⟨hguard, hplain⟩
  · rw [hmagic, hguard] at hspan
    exact ((Regex.spansUnder_notDot hbar).mp hspan).1
  · have hfront : (if !false && g.isMagic then g.guard else .done) = .done := by
      rw [hguard, ite_self]
    rw [hfront] at hspan
    exact head_of_beginsPlainly hbar hplain hspan

/-- If no segment but the globstars matches a dotfile, no path that is aligned has one. -/
theorem Aligns.hides {segments : List Segment} {xs : List (List Char)}
    (h : Aligns flags false segments xs)
    (hs : ∀ s ∈ segments, s.kind ≠ .globstar → ∀ x, s.Matches flags x → x.head? ≠ some '.') :
    ∀ x ∈ xs, x.head? ≠ some '.' := by
  induction h with
  | done => exact nofun
  | segment hk hmatch _ ih =>
    obtain ⟨hfirst, hrest⟩ := List.forall_mem_cons.mp hs
    exact List.forall_mem_cons.mpr ⟨hfirst hk _ hmatch, ih hrest⟩
  | skip _ _ ih => exact ih (List.forall_mem_cons.mp hs).2
  | swallow _ hx _ ih => exact List.forall_mem_cons.mpr ⟨hx.2 rfl, ih hs⟩
  | last _ _ => exact List.forall_mem_singleton.mpr nofun

end Segments

/-! ## 3. Compiled patterns -/

namespace Segmentation

/-- Some run through the regex of a pattern finds a segment that begins with a dot, though
    wildcards should leave leading dots alone. -/
def Exposed (flags : Flags) (pattern : List Char) : Prop :=
  ((middle false pattern).compared flags).Exposes flags.caseRule flags.dotAll

/-- Without dots and negated groups in a pattern its regex has no lookaheads but guards. -/
theorem onlyGuards_middle {pattern : List Char} (hdot : '.' ∉ pattern)
    (hneg : (Glob.read pattern).NegationFree) (flags : Flags) :
    ((middle false pattern).compared flags).OnlyGuards := by
  have hdir := currentDirectory?_eq_none (.inl hdot)
  have hbody := body_eq_self (.inl hdot)
  have hleading : leading pattern = .done := by simp [leading, hdir]
  have hall : Glob.Admits fun _ => True := ⟨fun _ _ _ => trivial⟩
  have hmiddle : Regex.Translation (fun _ => True) False (middle false pattern) := by
    rw [middle, hleading]
    refine translation_segments hall trivial false (Glob.writtenIn_univ '/' _) (.inr ?_)
    rw [hbody]
    exact ⟨hdot, hneg⟩
  exact (hmiddle.compared (fun _ _ => trivial) flags).onlyGuards

end Segmentation

namespace CompiledGlob

variable {pattern : List Char} {options : Option MatchOptions} {negated : Option Bool}
  {serial : Nat} {g : CompiledGlob}

open Segmentation (Exposed)
open Wildcard.Path (HasDotfile)

/-- A pattern that is matched segment by segment accepts no dotfile, if no segment of it begins with
    a group without a mark. -/
theorem hides_of_separated (hleave : MatchOptions.matchesDot options = false) (hdot : '.' ∉ pattern)
    (h : ofPattern pattern options negated serial = .ok g) (hsep : (Glob.read pattern).Separated)
    (hgroups : ∀ p ∈ (Glob.read pattern).pieces '/', ¬ p.BeginsWithGroup) (c : List Char)
    (hc : g.isFoundIn c = true) : ¬ HasDotfile c := by
  have hdir := currentDirectory?_eq_none (.inl hdot)
  have hbody := Segmentation.body_eq_self (.inl hdot)
  obtain ⟨flags, -, hflags, -⟩ := compile_ofPattern h
  rw [isFoundIn_iff_exists_aligns hflags (hbody.symm ▸ hsep) h, hleave] at hc
  obtain ⟨rest, hleaves, haligns⟩ := hc
  have hrest : c = rest := by
    rcases hleaves with hsame | ⟨hsome, -⟩
    · exact hsame
    · rw [hdir] at hsome
      cases hsome
  have hwritten := Glob.writtenIn_isSpelled (Glob.filled_read pattern) '/'
  have hmatches : ∀ s ∈ Segmentation.plainSegments false pattern, s.kind ≠ .globstar →
      ∀ x, s.Matches flags x → x.head? ≠ some '.' := by
    intro s hs hk x hx
    rw [Segmentation.plainSegments, hbody] at hs
    obtain ⟨p, hp, rfl⟩ := List.mem_map.mp hs
    have hpdot : '.' ∉ p.text := by
      intro hmem
      have hread := Glob.mem_text_splitOn hp '.' hmem
      rw [Glob.text_read] at hread
      exact hdot hread
    exact head_of_matches (Glob.writtenIn_splitOn hwritten p hp) hpdot (hgroups p hp) hk hx
  rintro ⟨x, hx, hhead⟩
  rw [hrest] at hx
  exact haligns.hides hmatches x hx hhead

/-- **Dotfiles are hidden** from a pattern without dots, where wildcards leave leading dots alone,
    unless a run through its regex finds one. Where no group is negated each such run shows in a
    candidate; and there is none if the separators of the pattern divide its segments and no
    segment begins with a group without a mark. -/
theorem isFoundIn_hides_dotfiles (hleave : MatchOptions.matchesDot options = false)
    (hdot : '.' ∉ pattern) (h : ofPattern pattern options negated serial = .ok g) :
    (¬ Exposed g.regex.flags pattern → ∀ c, g.isFoundIn c = true → ¬ HasDotfile c) ∧
      ((Glob.read pattern).NegationFree →
        ((∀ c, g.isFoundIn c = true → ¬ HasDotfile c) ↔ ¬ Exposed g.regex.flags pattern)) ∧
      ((Glob.read pattern).Separated →
        (∀ p ∈ (Glob.read pattern).pieces '/', ¬ p.BeginsWithGroup) →
          ∀ c, g.isFoundIn c = true → ¬ HasDotfile c) := by
  obtain ⟨-, hfound⟩ := isFoundIn_ofPattern h
  rw [hleave] at hfound
  have hsound : ¬ Exposed g.regex.flags pattern →
      ∀ c, g.isFoundIn c = true → ¬ HasDotfile c := by
    intro hexposed c hc hdotfile
    exact hexposed (Regex.exposes_of_spans ((hfound c).mp hc) hdotfile)
  refine ⟨hsound, fun hneg => ⟨fun hhides hexposed => ?_, hsound⟩, ?_⟩
  · have honly := Segmentation.onlyGuards_middle hdot hneg g.regex.flags
    obtain ⟨x, hspan, hdotfile⟩ :=
      @Regex.exists_spans_of_exposes (g.regex.flags.subject []) _ honly hexposed
    have hrules : Regex.SameRules (g.regex.flags.subject []) (g.regex.flags.subject x) := ⟨rfl, rfl⟩
    rw [Regex.spans_of_sameRules hrules honly.unrooted] at hspan
    exact hhides x ((hfound x).mpr hspan) hdotfile
  · exact hides_of_separated hleave hdot h

theorem isFoundIn_hides_dotfiles_marked :
    ∃ g, ofPattern "@(a|*)b/[x-z]?/**/!(c)+(d|)*".toList none none 0 = .ok g ∧
      ∀ c, g.isFoundIn c = true → ¬ HasDotfile c := by
  have h : ofPattern "@(a|*)b/[x-z]?/**/!(c)+(d|)*".toList none none 0 = .ok _ := rfl
  exact ⟨_, h, (isFoundIn_hides_dotfiles rfl (by decide) h).2.2 (by decide) (by decide)⟩

/-- The first wildcard of an alternative has no guard. -/
theorem isFoundIn_dotfile_alternative :
    '.' ∉ "\x7b*,b\x7d".toList ∧ ∃ g, ofPattern "\x7b*,b\x7d".toList none none 0 = .ok g ∧
      g.isFoundIn ".x".toList = true ∧ HasDotfile ".x".toList := by
  have h : ofPattern "\x7b*,b\x7d".toList none none 0 = .ok _ := rfl
  exact ⟨by decide, _, h, by decide +kernel, (Path.after_start _).mp rfl⟩

end CompiledGlob

end Wildcard
