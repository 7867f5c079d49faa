import Mathlib.Data.List.Forall2
import Wildcard.Proofs.Compilation

/-!
# How a regex is put together

The text of the regex of a pattern is that of its segments with escaped separators between them,
between the two ends of the text and, for a pattern that begins with `./`, behind an optional `./`.
Each segment is a complete regex of its own that holds no bar outside of its groups, and the text as
a whole is read as these regexes one after the other. So nothing in one segment reaches into
another, and what is found in a candidate spans all of it, segment by segment.

* `SpanInTurn`: regexes span a text one after the other, with separators between them.
* `spansUnder_joined_iff`: the segments of a pattern do so if their joined regexes span the text.
* `composed_ofPattern`: how the regex of a compiled pattern is put together.
-/

namespace Wildcard

open Regex (Flags Single SpansUnder Translation)

/-! ## 1. Regexes compiled on their own -/

/-- The compiled regex spans from one rest of a candidate to a later one. -/
def CompiledRegex.Spans (r : CompiledRegex) (candidate : List Char) :
    List Char → List Char → Prop :=
  r.regex.Spans (r.subject candidate)

/-- Regexes span what lies between two rests of a candidate one after the other, with a separator
    between any two. -/
def SpanInTurn (candidate : List Char) : List CompiledRegex → List Char → List Char → Prop
  | [], u, v => u = v
  | [r], u, v => r.Spans candidate u v
  | r :: next :: rest, u, v =>
    ∃ w, r.Spans candidate u ('/' :: w) ∧ SpanInTurn candidate (next :: rest) w v

namespace Regex

/-- What a well-spelled regex without bars and reversed ranges is compiled to. -/
theorem compile_text_eq {r : Regex} (hr : Translation Single.IsSpelled True r) (hranges : r.InOrder)
    {flags : Flags} (hagree : (flags.ascii && flags.unicode) = false) :
    CompiledRegex.compile r.text flags = .ok ⟨r.text, flags, r.compared flags⟩ := by
  obtain ⟨c, hc⟩ := exists_compile hr.isSpelled hranges hagree
  obtain ⟨rfl, -, -⟩ := compile_text hr.isSpelled hc
  rw [hc, compared, Translation.markChoices_of_barFree (barFree_markInside hr.barFree)]

end Regex

/-! ## 2. Segments -/

/-- The regex of a segment as it is compiled on its own. -/
def Segment.compiled (flags : Flags) (s : Segment) : CompiledRegex :=
  ⟨s.regex.text, flags, s.regex.compared flags⟩

namespace Segmentation

/-- Joining segments joins their texts. -/
theorem text_joined (segments : List Segment) :
    (joined segments).text = ['\\', '/'].intercalate (segments.map (·.regex.text)) := by
  induction segments with
  | nil => rfl
  | cons s rest ih =>
    cases rest with
    | nil => simp [joined, List.intercalate]
    | cons next rest =>
      have hsep (r : Regex) : (Regex.separator r).text = ['\\', '/'] ++ r.text := rfl
      change (s.regex ++ .separator (joined (next :: rest))).text = _
      rw [Regex.text_append, hsep, ih]
      simp [List.intercalate]

theorem barFree_joined {segments : List Segment} (h : ∀ s ∈ segments, s.regex.BarFree) :
    (joined segments).BarFree := by
  induction segments with
  | nil => exact Regex.barFree_done
  | cons s rest ih =>
    obtain ⟨hs, hrest⟩ := List.forall_mem_cons.mp h
    cases rest with
    | nil => exact hs
    | cons next rest => exact hs.append (ih hrest)

/-- No range of joined segments is reversed unless one of theirs is. -/
theorem inOrder_of_joined {segments : List Segment} (h : (joined segments).InOrder) :
    ∀ s ∈ segments, s.regex.InOrder := by
  induction segments with
  | nil => exact List.forall_mem_nil _
  | cons s rest ih =>
    cases rest with
    | nil => exact List.forall_mem_singleton.mpr h
    | cons next rest =>
      obtain ⟨hs, -, hrest⟩ := (Regex.inOrder_append _ _).mp h
      exact List.forall_mem_cons.mpr ⟨hs, ih hrest⟩

/-- **Joined segments span what the segments span in turn.** -/
theorem spansUnder_joined_iff {segments : List Segment} (h : ∀ s ∈ segments, s.regex.BarFree)
    {flags : Flags} {candidate u v : List Char} :
    SpansUnder flags candidate (joined segments) u v ↔
      SpanInTurn candidate (segments.map (Segment.compiled flags)) u v := by
  induction segments generalizing u with
  | nil => exact Regex.spansUnder_done
  | cons s rest ih =>
    obtain ⟨hs, hrest⟩ := List.forall_mem_cons.mp h
    cases rest with
    | nil => exact Iff.rfl
    | cons next rest =>
      have hbar : (joined (next :: rest)).BarFree := barFree_joined hrest
      have hsep : (Regex.separator (joined (next :: rest))).BarFree := hbar
      refine (Regex.spansUnder_append hs hsep).trans ?_
      simp only [Regex.spansUnder_separator hbar]
      constructor
      · intro ⟨_, hfirst, w, hw, hothers⟩
        rw [hw] at hfirst
        exact ⟨w, hfirst, (ih hrest).mp hothers⟩
      · intro ⟨w, hfirst, hothers⟩
        exact ⟨_, hfirst, w, rfl, (ih hrest).mpr hothers⟩

/-- The segments of a pattern are well spelled. -/
theorem spelled_ofText (dot : Bool) (negated : Option Bool) (input : List Char) :
    ∀ s ∈ (ofText dot negated input).segments, Translation Single.IsSpelled True s.regex := by
  have hfolded := translation_folded Glob.admits_isSpelled rfl dot
    (Glob.writtenIn_isSpelled (Glob.filled_read (body input)) '/') (.inl trivial)
  rw [segments_ofText]
  split
  · exact List.forall_mem_nil _
  · exact hfolded

/-- The text of the regex of a pattern. -/
theorem source_ofText (dot : Bool) (negated : Option Bool) (input : List Char) :
    (ofText dot negated input).source =
      "\\A".toList ++ (if (currentDirectory? input).isSome then "(?:\\.\\/)?".toList else []) ++
        "\\/".toList.intercalate ((ofText dot negated input).segments.map (·.regex.text)) ++
          "\\Z".toList := by
  have hleading : (leading input).text =
      if (currentDirectory? input).isSome then "(?:\\.\\/)?".toList else [] := by
    unfold leading
    split <;> rfl
  have hclosing : closing.text = "\\Z".toList := rfl
  rw [source, regex_ofText, middle, ← joined_ofText dot negated]
  change "\\A".toList ++ _ = _
  rw [Regex.text_append, Regex.text_append, hleading, hclosing, text_joined]
  simp only [List.append_assoc]
  rfl

end Segmentation

/-! ## 3. Compiled patterns -/

open Segmentation (Leaves joined leading)

namespace CompiledGlob

variable {pattern : List Char} {options : Option MatchOptions} {negated : Option Bool}
  {serial : Nat} {g : CompiledGlob}

/-- A compiled pattern holds its segments and the text of its regex, which is in order. -/
theorem segmentation_ofPattern (h : ofPattern pattern options negated serial = .ok g) :
    g.segmentation = some (Segmentation.ofText (MatchOptions.matchesDot options) negated pattern) ∧
      g.source = (Segmentation.ofText (MatchOptions.matchesDot options) negated pattern).source ∧
        (Segmentation.middle (MatchOptions.matchesDot options) pattern).InOrder ∧
          (g.regex.flags.ascii && g.regex.flags.unicode) = false := by
  obtain ⟨hflags, -⟩ := isFoundIn_ofPattern h
  rw [ofPattern_eq hflags] at h
  split at h
  · cases h
  · rename_i compiled hcompile
    have hsegmentation := congrArg CompiledGlob.segmentation (Except.ok.inj h)
    have hregex := congrArg CompiledGlob.regex (Except.ok.inj h)
    obtain ⟨hcompiled, hranges, hagree⟩ := Regex.compile_text (isSpelled_anchored _ _) hcompile
    refine ⟨hsegmentation.symm, ?_, ?_, hagree⟩
    · rw [source, ← hregex, Segmentation.source, Segmentation.regex_ofText]
      exact congrArg CompiledRegex.source hcompiled
    · exact inOrder_anchored.mp ((Regex.reversed?_eq_none 0 _).mp hranges)

/-- **The regex of a compiled pattern** is put together from those of its segments. The text of
    each segment is read on its own as a regex without bars outside of groups, and the whole text as
    these regexes one after the other, with separators between them. So the pattern is found in a
    candidate exactly if the joined segments span all of it, from the first character to the last,
    and that they do in turn. -/
theorem composed_ofPattern (h : ofPattern pattern options negated serial = .ok g) :
    ∃ s tokens whole, g.segmentation = some s ∧
      g.source = "\\A".toList ++
        (if (currentDirectory? pattern).isSome then "(?:\\.\\/)?".toList else []) ++
          "\\/".toList.intercalate (s.segments.map (·.regex.text)) ++ "\\Z".toList ∧
      (∀ verbose, Regex.read verbose g.source = .ok (.anchor .start
        (leading pattern ++ (joined s.segments ++ .anchor .stop .done)))) ∧
      List.Forall₂ (fun segment token => segment.regex.BarFree ∧
        (∀ verbose, Regex.read verbose segment.regex.text = .ok segment.regex) ∧
          CompiledRegex.compile segment.regex.text g.regex.flags = .ok token) s.segments tokens ∧
      CompiledRegex.compile (leading pattern ++ joined s.segments).text g.regex.flags = .ok whole ∧
      ∀ c, (g.isFoundIn c = true ↔ whole.Spans c c []) ∧
        (whole.Spans c c [] ↔ ∃ rest, Leaves pattern c rest ∧ SpanInTurn c tokens rest []) := by
  obtain ⟨hsegmentation, hsource, hranges, hagree⟩ := segmentation_ofPattern h
  obtain ⟨-, hfound⟩ := isFoundIn_ofPattern h
  generalize MatchOptions.matchesDot options = dot at hsegmentation hsource hranges hfound
  have hspelled := Segmentation.spelled_ofText dot negated pattern
  have hbar : ∀ s ∈ (Segmentation.ofText dot negated pattern).segments, s.regex.BarFree :=
    fun s hs => (hspelled s hs).barFree
  have hmiddle : Segmentation.middle dot pattern =
      leading pattern ++ joined (Segmentation.ofText dot negated pattern).segments := by
    rw [Segmentation.joined_ofText]
    rfl
  have hwhole := Regex.compile_text_eq (Segmentation.spelled_middle dot pattern) hranges hagree
  rw [hmiddle] at hwhole
  refine ⟨_, (Segmentation.ofText dot negated pattern).segments.map
    (Segment.compiled g.regex.flags), _, hsegmentation, ?_, fun verbose => ?_, ?_, hwhole,
      fun c => ⟨?_, ?_⟩⟩
  · rw [hsource, Segmentation.source_ofText]
  · have hread := Regex.read_text (v := verbose) (isSpelled_anchored dot pattern)
    rw [(Regex.reversed?_eq_none 0 _).mpr (inOrder_anchored.mpr hranges)] at hread
    rw [hsource, Segmentation.source, Segmentation.regex_ofText, ← Regex.append_assoc, ← hmiddle]
    exact hread
  · rw [List.forall₂_map_right_iff, List.forall₂_same]
    intro s hs
    have hranges : s.regex.InOrder := by
      rw [hmiddle] at hranges
      exact Segmentation.inOrder_of_joined ((Regex.inOrder_append _ _).mp hranges).2 s hs
    refine ⟨hbar s hs, fun verbose => ?_, Regex.compile_text_eq (hspelled s hs) hranges hagree⟩
    rw [Regex.read_text (hspelled s hs).isSpelled, (Regex.reversed?_eq_none 0 _).mpr hranges]
    rfl
  · rw [← hmiddle]
    exact hfound c
  · have hleading := (Segmentation.spelled_leading pattern).barFree
    change SpansUnder g.regex.flags c (leading pattern ++ joined _) c [] ↔ _
    rw [Regex.spansUnder_append hleading (Segmentation.barFree_joined hbar)]
    simp only [Segmentation.spansUnder_leading, Segmentation.spansUnder_joined_iff hbar]

/-- Bars that stand for themselves, a group of alternatives and a globstar folded into its
    neighbour. -/
theorem composed_ofPattern_folded :
    ∃ g tokens, ofPattern "./a|b/**/+(c|)|d".toList none none 0 = .ok g ∧ tokens.length = 2 ∧
      ∀ c, g.isFoundIn c = true ↔
        ∃ rest, Leaves "./a|b/**/+(c|)|d".toList c rest ∧ SpanInTurn c tokens rest [] := by
  have h : ofPattern "./a|b/**/+(c|)|d".toList none none 0 = .ok _ := rfl
  obtain ⟨s, tokens, whole, hs, -, -, htokens, -, hspans⟩ := composed_ofPattern h
  refine ⟨_, tokens, h, ?_, fun c => (hspans c).1.trans (hspans c).2⟩
  cases hs
  exact htokens.length_eq.symm

end CompiledGlob

end Wildcard
