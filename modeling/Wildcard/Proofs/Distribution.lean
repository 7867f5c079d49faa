import Wildcard.Proofs.Glob.Balanced
import Wildcard.Proofs.Glob.Pieces
import Wildcard.Proofs.Shortcut

/-!
# Braces distribute over what stands around them

A pattern with alternatives in braces accepts what one of the patterns accepts that have a single
alternative in place of the braces. Each of these patterns is read anew, so this needs that the
alternatives are balanced texts (`Glob.IsAlternative`). It also needs that an alternative means the
same within braces and without, and two things stand in the way of that:

* A negated group looks at what follows it up to the end of its range, and in braces that is the end
  of the alternative (`Glob.LooksPast`). Such an alternative keeps its braces.
* Alternatives that are single characters, perhaps behind a common beginning, are matched as one set
  (`Glob.AreSet`). Where case is ignored, a set compares upper-case letters beyond the basic plane
  otherwise than these letters are compared by themselves (`Glob.FoldsEvenly`).

* `Regex.spansUnder_distrib`: the law for regexes.
* `isFoundIn_inBraces`, `isFoundIn_withAlternative`: all alternatives, and one of them.
* `ofPattern_inBraces`: the law for compiled patterns.
-/

namespace Wildcard

/-! ## 1. Regexes -/

namespace Regex

variable {flags : Flags} {text u v : List Char} {front body back : Regex} {alternatives : List Regex}

/-- **A group with alternatives distributes** over what stands in front of it and behind it. -/
theorem spansUnder_distrib (hfront : front.BarFree) (hback : back.BarFree)
    (hbar : ∀ r ∈ alternatives, r.BarFree)
    (hbody : ∀ u v, InsideUnder flags text body u v ↔
      ∃ r ∈ alternatives, SpansUnder flags text r u v) :
    SpansUnder flags text (front ++ group .plain body .once back) u v ↔
      ∃ r ∈ alternatives, SpansUnder flags text (front ++ (r ++ back)) u v := by
  have hgroup : (group .plain body .once back).BarFree := hback
  have hone : ∀ r ∈ alternatives, (SpansUnder flags text (front ++ (r ++ back)) u v ↔
      ∃ w, SpansUnder flags text front u w ∧
        ∃ i, SpansUnder flags text r w i ∧ SpansUnder flags text back i v) := fun r hr => by
    rw [spansUnder_append hfront ((hbar r hr).append hback)]
    simp only [spansUnder_append (hbar r hr) hback]
  simp only [spansUnder_append hfront hgroup, spansUnder_group hback, Quantifier.Spans, hbody]
  constructor
  · rintro ⟨w, hw, i, ⟨r, hr, hi⟩, hend⟩
    exact ⟨r, hr, (hone r hr).mpr ⟨w, hw, i, hi, hend⟩⟩
  · rintro ⟨r, hr, hspans⟩
    obtain ⟨w, hw, i, hi, hend⟩ := (hone r hr).mp hspans
    exact ⟨w, hw, i, ⟨r, hr, hi⟩, hend⟩

end Regex

/-! ## 2. Parts -/

namespace Glob

variable {d : Char} {body : Glob}

/-- Braces with a comma stand for alternatives. -/
theorem regex_parts_braces (d : Char) (afterStar : Bool) (hcomma : (body.splitOn ',').2 ≠ [])
    (rest : Glob) :
    (parts d afterStar (group .braces body rest)).1.regex =
      .group .plain (Part.join (parts ',' false body)) .once (parts d false rest).1.regex := by
  have hmany : (parts ',' false body).2 ≠ [] := by
    rw [parts_pieces rfl]
    exact mt List.map_eq_nil_iff.mp hcomma
  rw [parts, if_pos hmany]
  rfl

end Glob

/-! ## 3. Compiled patterns -/

namespace CompiledGlob

open Glob (StandsForItself IsAlternative AreSet FoldsEvenly)
open Regex (SpansUnder)

variable {front back : List Char} {texts : List (List Char)} {options : Option MatchOptions}
  {negated : Option Bool} {serial : Nat} {g : CompiledGlob}

/-- A pattern with alternatives in braces. -/
def inBraces (front : List Char) (texts : List (List Char)) (back : List Char) : List Char :=
  front ++ '{' :: ([','].intercalate texts ++ '}' :: back)

/-- A pattern with a single alternative in place of the braces. If something follows that a negated
    group of the alternative would look at, then the alternative stays in braces, given twice. -/
def withAlternative (front back x : List Char) : List Char :=
  if back ≠ [] ∧ (Glob.read x).LooksPast then inBraces front [x, x] back else front ++ (x ++ back)

/-- A pattern with alternatives in braces is read with the alternatives as pieces. -/
theorem exists_read_braces (hback : ∀ c ∈ back, StandsForItself c) (htwo : 1 < texts.length)
    (htexts : ∀ x ∈ texts, IsAlternative ',' x) :
    ∃ body, Glob.read ('{' :: ([','].intercalate texts ++ '}' :: back)) =
        .group .braces body (Glob.chars back) ∧
      body.pieces ',' = texts.map Glob.read := by
  obtain ⟨x, xs, rfl⟩ := List.exists_cons_of_length_pos (Nat.zero_lt_of_lt htwo)
  obtain ⟨hbalanced, hdepth, hpieces⟩ := Glob.read_intercalate (by decide) htexts
  refine ⟨_, ?_, hpieces⟩
  rw [← Glob.read_of_standsForItself hback]
  exact Glob.read_group .braces hbalanced hdepth back

/-- The classes of such a pattern are those of its alternatives. -/
theorem inOrder_braces (hback : ∀ c ∈ back, StandsForItself c) (htwo : 1 < texts.length)
    (htexts : ∀ x ∈ texts, IsAlternative ',' x) :
    (Glob.read ('{' :: ([','].intercalate texts ++ '}' :: back))).InOrder ↔
      ∀ x ∈ texts, (Glob.read x).InOrder := by
  obtain ⟨body, hread, hpieces⟩ := exists_read_braces hback htwo htexts
  have hplain : (Glob.chars back).InOrder := by
    rw [Glob.InOrder, Glob.classes_chars]
    exact List.forall_mem_nil _
  rw [hread, Glob.inOrder_group, and_iff_left hplain, Glob.inOrder_pieces ',', hpieces,
    List.forall_mem_map]

theorem read_alternative (hback : ∀ c ∈ back, StandsForItself c) {x : List Char}
    (hx : IsAlternative ',' x) : Glob.read (x ++ back) = Glob.read x ++ Glob.chars back := by
  rw [Glob.read_append hx.balanced (Nat.le_of_lt hx.depth), Glob.read_of_standsForItself hback]

theorem isAlternative_twice {x : List Char} (hx : IsAlternative ',' x) :
    ∀ y ∈ [x, x], IsAlternative ',' y := by
  simpa using hx

section

variable (hne : front ≠ []) (hfront : ∀ c ∈ front, StandsForItself c)
  (hback : ∀ c ∈ back, StandsForItself c)

include hne hfront hback

/-- **A pattern with alternatives in braces** accepts what one of the alternatives spans between
    what stands around the braces. -/
theorem isFoundIn_inBraces (htwo : 1 < texts.length) (htexts : ∀ x ∈ texts, IsAlternative ',' x)
    (h : ofPattern (inBraces front texts back) options negated serial = .ok g)
    (heven : AreSet ',' (texts.map Glob.read) → ∀ x ∈ texts, FoldsEvenly g.regex.flags x)
    (c : List Char) :
    g.isFoundIn c = true ↔ ∃ x ∈ texts, SpansUnder g.regex.flags c
      (Regex.chars front ++ ((Glob.read x).alternative ',' ++ Regex.chars back)) c [] := by
  obtain ⟨body, hread, hpieces⟩ := exists_read_braces hback htwo htexts
  have hcomma : (body.splitOn ',').2 ≠ [] := by
    intro hnone
    have hlength := congrArg List.length hpieces
    rw [Glob.pieces, hnone, List.length_singleton, List.length_map] at hlength
    omega
  have hbare : (Glob.read ('{' :: ([','].intercalate texts ++ '}' :: back))).hasBare '/' = false := by
    rw [hread]
    exact Glob.hasBare_chars hback (by decide)
  have hbar : ∀ r ∈ texts.map fun x => (Glob.read x).alternative ',', r.BarFree :=
    List.forall_mem_map.mpr fun x _ => Glob.barFree_parts ',' false _ _ List.mem_cons_self
  have hinside (u v : List Char) :
      Regex.InsideUnder g.regex.flags c (Glob.Part.join (Glob.parts ',' false body)) u v ↔
        ∃ r ∈ texts.map fun x => (Glob.read x).alternative ',', SpansUnder g.regex.flags c r u v := by
    rw [Glob.insideUnder_pieces rfl, hpieces]
    · simp only [List.mem_map, exists_exists_and_eq_and]
    · rw [hpieces]
      exact fun hset => List.forall_mem_map.mpr fun x hx => by
        rw [Glob.text_read]
        exact heven hset x hx
  rw [isFoundIn_iff_of_word hne hfront hbare h, hread, Glob.regex_parts_braces '/' false hcomma,
    Glob.regex_parts_of_standsForItself hback (by decide) false,
    Regex.spansUnder_distrib (Regex.barFree_chars front) (Regex.barFree_chars back) hbar hinside]
  simp only [List.mem_map, exists_exists_and_eq_and]

variable {x : List Char} (hx : IsAlternative ',' x)

include hx

/-- With a single alternative the pattern compiles if the classes of the alternative are in
    order. -/
theorem exists_ofPattern_withAlternative {rest : List Char}
    (h : ofPattern (front ++ rest) options negated serial = .ok g)
    (hclasses : (Glob.read rest).InOrder → (Glob.read x).InOrder) :
    ∃ one, ofPattern (withAlternative front back x) options negated serial = .ok one := by
  unfold withAlternative
  split
  · refine exists_ofPattern_of_word hne hfront h fun hin => ?_
    refine (inOrder_braces hback (by simp) (isAlternative_twice hx)).mpr ?_
    simpa using hclasses hin
  · refine exists_ofPattern_of_word hne hfront h fun hin => ?_
    rw [read_alternative hback hx, Glob.InOrder, Glob.classes_append, Glob.classes_chars,
      List.append_nil]
    exact hclasses hin

/-- **With a single alternative** the pattern accepts what the alternative spans in its place. -/
theorem isFoundIn_withAlternative (hslash : (Glob.read x).hasBare '/' = false)
    (h : ofPattern (withAlternative front back x) options negated serial = .ok g) (c : List Char) :
    g.isFoundIn c = true ↔ SpansUnder g.regex.flags c
      (Regex.chars front ++ ((Glob.read x).alternative ',' ++ Regex.chars back)) c [] := by
  unfold withAlternative at h
  split at h
  · rw [isFoundIn_inBraces hne hfront hback (by simp) (isAlternative_twice hx) h
      fun hset => absurd hset (Glob.not_areSet_twice ',' (Glob.read x))]
    simp
  · rename_i hpast
    have hpast : back = [] ∨ ¬ (Glob.read x).LooksPast := by
      rwa [not_and_or, not_not] at hpast
    have hread := read_alternative hback hx
    have hbare : (Glob.read (x ++ back)).hasBare '/' = false := by
      rw [hread, Glob.hasBare_append, hslash, Glob.hasBare_chars hback (by decide)]
      rfl
    rw [isFoundIn_iff_of_word hne hfront hbare h, hread,
      Glob.regex_parts_append_chars hback (by decide) false hslash hpast,
      ← Glob.parts_delimiter false hx.bare hslash]
    exact Iff.rfl

end

/-- **Braces distribute over what stands around them:** the pattern accepts what one of the patterns
    with a single alternative accepts, and all of these compile if it does. -/
theorem ofPattern_inBraces (hne : front ≠ []) (hfront : ∀ c ∈ front, StandsForItself c)
    (hback : ∀ c ∈ back, StandsForItself c) (htwo : 1 < texts.length)
    (htexts : ∀ x ∈ texts, IsAlternative ',' x ∧ (Glob.read x).hasBare '/' = false)
    (h : ofPattern (inBraces front texts back) options negated serial = .ok g)
    (heven : AreSet ',' (texts.map Glob.read) → ∀ x ∈ texts, FoldsEvenly g.regex.flags x) :
    (∀ x ∈ texts, ∃ one,
      ofPattern (withAlternative front back x) options negated serial = .ok one) ∧
    ∀ c, g.accepts c = true ↔ ∃ x ∈ texts, ∃ one,
      ofPattern (withAlternative front back x) options negated serial = .ok one ∧
        one.accepts c = true := by
  have halternatives : ∀ x ∈ texts, IsAlternative ',' x := fun x hx => (htexts x hx).1
  have hcompiles : ∀ x ∈ texts, ∃ one,
      ofPattern (withAlternative front back x) options negated serial = .ok one := fun x hx =>
    exists_ofPattern_withAlternative hne hfront hback (halternatives x hx) h fun hin =>
      (inOrder_braces hback htwo halternatives).mp hin x hx
  have hfound (c : List Char) : g.isFoundIn c = true ↔ ∃ x ∈ texts, ∃ one,
      ofPattern (withAlternative front back x) options negated serial = .ok one ∧
        one.isFoundIn c = true := by
    rw [isFoundIn_inBraces hne hfront hback htwo halternatives h heven]
    refine exists_congr fun x => and_congr_right fun hx => ?_
    have hone {one : CompiledGlob}
        (hone : ofPattern (withAlternative front back x) options negated serial = .ok one) :
        one.isFoundIn c = true ↔ SpansUnder g.regex.flags c
          (Regex.chars front ++ ((Glob.read x).alternative ',' ++ Regex.chars back)) c [] := by
      rw [← flags_eq h hone rfl]
      exact isFoundIn_withAlternative hne hfront hback (halternatives x hx) (htexts x hx).2 hone c
    constructor
    · intro hspans
      obtain ⟨one, hcompiled⟩ := hcompiles x hx
      exact ⟨one, hcompiled, (hone hcompiled).mpr hspans⟩
    · rintro ⟨one, hcompiled, hc⟩
      exact (hone hcompiled).mp hc
  refine ⟨hcompiles, fun c => ?_⟩
  simp only [accepts_iff, hfound, ← exists_or, ← and_or_left]

/-- Alternatives with a negated group that looks past its end, with a class and an escaped comma, and
    with braces of their own. -/
theorem ofPattern_inBraces_nested :
    ∃ g, ofPattern "a\x7b!(b),*[c-d]\\,,\x7bx,y\x7d?\x7d9".toList none none 0 = .ok g ∧
      ∀ c, g.accepts c = true ↔
        ∃ x ∈ ["!(b)".toList, "*[c-d]\\,".toList, "\x7bx,y\x7d?".toList], ∃ one,
          ofPattern (withAlternative ['a'] ['9'] x) none none 0 = .ok one ∧
            one.accepts c = true := by
  have h : ofPattern (inBraces ['a'] ["!(b)".toList, "*[c-d]\\,".toList, "\x7bx,y\x7d?".toList] ['9'])
      none none 0 = .ok _ := rfl
  obtain ⟨-, hlaw⟩ := ofPattern_inBraces (by decide) (List.forall_mem_singleton.mpr (by decide))
    (List.forall_mem_singleton.mpr (by decide)) (by decide) (by decide) h
    fun _ x _ => Glob.foldsEvenly_of_exact rfl x
  exact ⟨_, h, hlaw⟩

/-- A negated group looks at what follows the braces only where there are none. -/
theorem ofPattern_inBraces_negated :
    ∃ g one other, ofPattern "a\x7b!(b),c\x7dd".toList none none 0 = .ok g ∧
      ofPattern "a!(b)d".toList none none 0 = .ok one ∧
      ofPattern "acd".toList none none 0 = .ok other ∧
        g.accepts "abd".toList = true ∧ one.accepts "abd".toList = false ∧
          other.accepts "abd".toList = false := by
  have h : ofPattern "a\x7b!(b),c\x7dd".toList none none 0 = .ok _ := rfl
  have hone : ofPattern "a!(b)d".toList none none 0 = .ok _ := rfl
  have hother : ofPattern "acd".toList none none 0 = .ok _ := rfl
  exact ⟨_, _, _, h, hone, hother, by decide +kernel, by decide +kernel, by decide +kernel⟩

/-- **Where case is ignored**, an upper-case letter beyond the basic plane that is an alternative by
    itself is not even matched by itself. -/
theorem ofPattern_inBraces_uneven :
    ∃ g one, ofPattern (inBraces ['a'] [[Char.ofNat 0x10400], ['b']] [])
        (some { nocase := true }) none 0 = .ok g ∧
      ofPattern ['a', Char.ofNat 0x10400] (some { nocase := true }) none 0 = .ok one ∧
        g.accepts ['a', Char.ofNat 0x10400] = false ∧
          one.accepts ['a', Char.ofNat 0x10400] = true := by
  have h : ofPattern (inBraces ['a'] [[Char.ofNat 0x10400], ['b']] [])
    (some { nocase := true }) none 0 = .ok _ := rfl
  have hone : ofPattern ['a', Char.ofNat 0x10400] (some { nocase := true }) none 0 = .ok _ := rfl
  exact ⟨_, _, h, hone, by decide +kernel, by decide +kernel⟩

end CompiledGlob

end Wildcard
