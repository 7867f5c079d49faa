import Mathlib.Data.List.Forall2
import Wildcard.Proofs.Flags

/-!
# Patterns without wildcards

A pattern that holds no wildcard, class or group that stands for alternatives is found in one
text only, its own without the backslashes (`isFoundIn_of_not_isMagic`), or in two if it begins
with `./`. Its regex is a chain of characters standing for themselves (`Regex.Writes`).

* `writes_parts`: the parts of such a pattern write what they are spelled with.
* `plain_read`: a text without delimiters is read character by character.
-/

namespace Wildcard

/-! ## 1. Regexes that write a text -/

namespace Regex

/-- The regex is a chain of characters standing for themselves that write a text. -/
inductive Writes : Regex → List Char → Prop
  | done : Writes done []
  | literal {l : Literal} {rest : Regex} {w : List Char} :
      Writes rest w → Writes (single (.literal l) .once rest) (l.char :: w)

/-- No character of the text is matched by another one. -/
def MatchedAlone (rule : CaseRule) (w : List Char) : Prop :=
  ∀ x ∈ w, ∀ c, acceptsChar rule x c = (c == x)

variable {r s : Regex} {w w' u v : List Char}

theorem Writes.char (h : r.Writes w) (c : Char) : (Regex.char c r).Writes (c :: w) := by
  have hc := Writes.literal (l := .quote c) h
  rwa [Literal.char_quote] at hc

theorem Writes.append (hr : r.Writes w) (hs : s.Writes w') : (r ++ s).Writes (w ++ w') := by
  induction hr with
  | done => exact hs
  | literal _ ih => exact .literal ih

theorem Writes.barFree (h : r.Writes w) : r.BarFree := by
  induction h with
  | done => trivial
  | literal _ ih => exact ih

/-- There is no choice in such a regex. -/
theorem Writes.compared (h : r.Writes w) (flags : Flags) : r.compared flags = r := by
  have hmark : r.markInside = r := by
    induction h with
    | done => rfl
    | literal _ ih => rw [markInside, ih]
  unfold Regex.compared
  split
  · exact hmark
  · rfl

/-- **Such a regex spans the text that it writes.** -/
theorem Writes.spans {t : Subject} (h : r.Writes w) (hw : MatchedAlone t.rule w) :
    r.Spans t u v ↔ u = w ++ v := by
  induction h generalizing u with
  | done => exact spans_done
  | @literal l rest w hrest ih =>
    obtain ⟨hl, hw⟩ := List.forall_mem_cons.mp hw
    rw [spans_single hrest.barFree]
    simp only [Quantifier.Spans, Reads, Single.accepts, hl, ih hw, beq_iff_eq, exists_eq_right,
      exists_eq_left, List.cons_append]

theorem Writes.spansUnder {flags : Flags} {text : List Char} (h : r.Writes w)
    (hw : MatchedAlone flags.caseRule w) : SpansUnder flags text r u v ↔ u = w ++ v := by
  rw [SpansUnder, h.compared]
  exact h.spans hw

end Regex

/-! ## 2. The text of a pattern -/

namespace Glob

/-- The text of a pattern without the backslashes that escape. -/
def plain : Glob → List Char
  | done => []
  | char c rest => c :: rest.plain
  | escaped c rest => c :: rest.plain
  | bracket body rest => '[' :: body ++ ']' :: rest.plain
  | group k body rest => k.opener :: body.plain ++ k.closer :: rest.plain

theorem plain_append (g h : Glob) : (g ++ h).plain = g.plain ++ h.plain := by
  induction g with
  | done => rfl
  | char c rest ih => exact congrArg (c :: ·) ih
  | escaped c rest ih => exact congrArg (c :: ·) ih
  | bracket body rest ih => simp [plain, ih]
  | group k body rest _ ih => simp [plain, ih]

/-- Cutting loses nothing but the delimiters. -/
theorem plain_splitOn (d : Char) (g : Glob) :
    (g.splitOn d).1.plain ++ (g.splitOn d).2.flatMap (fun p => d :: p.plain) = g.plain := by
  induction g with
  | done => rfl
  | char c rest ih =>
    simp only [splitOn]
    split
    · rename_i h
      simp [plain, ← ih, h]
    · simp [plain, ← ih]
  | escaped c rest ih => simp [splitOn, plain, ← ih]
  | bracket b rest ih => simp [splitOn, plain, ← ih]
  | group g b rest _ ih => simp [splitOn, plain, ← ih]

/-- What a pattern without wildcards is cut into holds none either, and no bare delimiter. -/
theorem isMagic_splitOn {d : Char} {g : Glob} (h : g.isMagic = false) :
    ∀ p ∈ (g.splitOn d).1 :: (g.splitOn d).2, p.isMagic = false ∧ p.hasBare d = false := by
  induction g with
  | done => simp [splitOn, isMagic, hasBare]
  | char c rest ih =>
    rw [isMagic, Bool.or_eq_false_iff] at h
    obtain ⟨hc, hrest⟩ := h
    obtain ⟨⟨hfirst, hbare⟩, hothers⟩ := List.forall_mem_cons.mp (ih hrest)
    simp only [splitOn]
    split
    · exact List.forall_mem_cons.mpr ⟨⟨rfl, rfl⟩, ih hrest⟩
    · rename_i hd
      refine List.forall_mem_cons.mpr ⟨⟨?_, ?_⟩, hothers⟩
      · rw [isMagic, hc, hfirst, Bool.or_false]
      · rw [hasBare, hbare, Bool.or_false]
        exact beq_false_of_ne hd
  | escaped c rest ih =>
    obtain ⟨hfirst, hothers⟩ := List.forall_mem_cons.mp (ih h)
    exact List.forall_mem_cons.mpr ⟨hfirst, hothers⟩
  | bracket body rest => cases h
  | group k body rest _ ih =>
    cases k with
    | parens => cases h
    | braces =>
      rw [isMagic, Bool.or_eq_false_iff] at h
      obtain ⟨hbody, hrest⟩ := h
      obtain ⟨⟨hfirst, hbare⟩, hothers⟩ := List.forall_mem_cons.mp (ih hrest)
      refine List.forall_mem_cons.mpr ⟨⟨?_, hbare⟩, hothers⟩
      change (_ || (rest.splitOn d).1.isMagic) = false
      rw [hbody, hfirst, Bool.or_false]

/-- A text without the backslashes that escape. -/
def unescaped : List Char → List Char
  | '\\' :: c :: rest => c :: unescaped rest
  | c :: rest => c :: unescaped rest
  | [] => []

/-- What a mark is spelled with. -/
def Mark.plain : Mark → List Char
  | char c => [c]
  | escaped c => [c]
  | bracket body => '[' :: body ++ [']']

/-- No group opens or closes at the mark. -/
def Mark.Stands : Mark → Prop
  | char c => c ∉ ['{', '}', '(', ')']
  | _ => True

theorem Reading.step_stands {r : Reading} {m : Mark} (h : m.Stands) :
    (r.step m).soFar.plain = r.soFar.plain ++ m.plain := by
  cases m with
  | escaped c =>
    have hadd : (r.add (.escaped c)).soFar = r.soFar ++ escaped c done := soFar_add fun _ _ => rfl
    exact (congrArg Glob.plain hadd).trans (plain_append _ _)
  | bracket body =>
    have hadd : (r.add (.bracket body)).soFar = r.soFar ++ bracket body done :=
      soFar_add fun _ _ => rfl
    exact (congrArg Glob.plain hadd).trans (plain_append _ _)
  | char c =>
    have hadd : (r.add (.char c)).soFar = r.soFar ++ char c done := soFar_add fun _ _ => rfl
    rw [step_plain h, hadd, plain_append]
    rfl

theorem Reading.foldl_stands {r : Reading} {ms : List Mark} (h : ∀ m ∈ ms, m.Stands) :
    (ms.foldl step r).soFar.plain = r.soFar.plain ++ ms.flatMap Mark.plain := by
  induction ms generalizing r with
  | nil => simp
  | cons m ms ih =>
    obtain ⟨hm, hms⟩ := List.forall_mem_cons.mp h
    rw [List.foldl_cons, ih hms, step_stands hm, List.flatMap_cons, List.append_assoc]

/-- The marks of a text without classes are its characters, escaped or not. -/
theorem marks_unescaped {cs : List Char} (h : '[' ∉ cs) (table : List Bracket.Ahead) :
    (marks 0 cs table).flatMap Mark.plain = unescaped cs ∧
      ∀ m ∈ marks 0 cs table, ∀ c, m = .char c → c ∈ cs := by
  fun_induction unescaped cs generalizing table with
  | case1 c rest ih =>
    simp only [List.mem_cons, not_or] at h
    obtain ⟨hplain, hmem⟩ := ih h.2.2 table.tail.tail
    rw [marks]
    refine ⟨congrArg (c :: ·) hplain, List.forall_mem_cons.mpr ⟨by simp, ?_⟩⟩
    intro m hm d hd
    exact List.mem_cons_of_mem _ (List.mem_cons_of_mem _ (hmem m hm d hd))
  | case2 c rest hno ih =>
    rw [List.mem_cons, not_or] at h
    obtain ⟨hplain, hmem⟩ := ih h.2 table.tail
    have hmarks : marks 0 (c :: rest) table = .char c :: marks 0 rest table.tail := by
      rw [marks.eq_4 _ _ _ hno, if_neg (Ne.symm h.1)]
    rw [hmarks]
    refine ⟨congrArg (c :: ·) hplain, List.forall_mem_cons.mpr ⟨?_, ?_⟩⟩
    · intro d hd
      cases hd
      exact List.mem_cons_self
    · intro m hm d hd
      exact List.mem_cons_of_mem c (hmem m hm d hd)
  | case3 => simp [marks]

/-- **A text without delimiters** is read as its characters, escaped or not. -/
theorem plain_read {cs : List Char} (h : ∀ c ∈ cs, c ∉ ['{', '}', '(', ')', '[']) :
    (read cs).plain = unescaped cs := by
  have hopen : '[' ∉ cs := fun hmem => h '[' hmem (by decide)
  obtain ⟨hplain, hmem⟩ := marks_unescaped hopen (Bracket.lookahead cs)
  have hstands : ∀ m ∈ marksOf cs, m.Stands := by
    intro m hm
    cases m with
    | char c =>
      have hc := h c (hmem _ hm c rfl)
      simp only [List.mem_cons, List.not_mem_nil, or_false, not_or] at hc
      simp [Mark.Stands, hc]
    | escaped c => trivial
    | bracket body => trivial
  have hread : (read cs).plain = (Reading.soFar {}).plain ++ (marksOf cs).flatMap Mark.plain :=
    Reading.foldl_stands hstands
  rw [hread]
  exact hplain

/-- A pattern whose text holds no wildcard and no delimiter holds no wildcard. -/
theorem isMagic_of_text {g : Glob} (h : ∀ c ∈ g.text, c ∉ ['*', '?', '{', '(', '[']) :
    g.isMagic = false := by
  induction g with
  | done => rfl
  | char c rest ih =>
    obtain ⟨hc, hrest⟩ := List.forall_mem_cons.mp h
    simp only [List.mem_cons, List.not_mem_nil, or_false, not_or] at hc
    rw [isMagic, ih hrest, beq_false_of_ne hc.1, beq_false_of_ne hc.2.1]
    rfl
  | escaped c rest ih =>
    obtain ⟨_, hrest⟩ := List.forall_mem_cons.mp (List.forall_mem_cons.mp h).2
    exact ih hrest
  | bracket body rest => exact absurd (by simp) (h '[' List.mem_cons_self)
  | group k body rest =>
    cases k with
    | braces => exact absurd (by simp) (h '{' List.mem_cons_self)
    | parens => exact absurd (by simp) (h '(' List.mem_cons_self)

/-! ## 3. The regex of a pattern -/

/-- The regexes of parts write what pieces are spelled with. -/
structure Written (ps : Part × List Part) (first : Glob) (others : List Glob) : Prop where
  head : ps.1.regex.Writes first.plain
  tail : List.Forall₂ (fun p g => p.regex.Writes g.plain) ps.2 others

theorem Written.front {ps : Part × List Part} {p : Part} {first first' : Glob}
    {others : List Glob} (h : Written ps first others)
    (hp : ps.1.regex.Writes first.plain → p.regex.Writes first'.plain) :
    Written (p, ps.2) first' others :=
  ⟨hp h.head, h.tail⟩

/-- A bare character that is no wildcard writes itself. -/
theorem writes_bare {c : Char} (hc : (c == '*' || c == '?') = false) {r : Regex} {w : List Char}
    (h : r.Writes w) : (bare c r).Writes (c :: w) := by
  unfold bare
  split
  · cases hc
  · cases hc
  · exact .literal (l := .escaped '/') h
  · exact h.char c

theorem written_place {d c : Char} {afterStar : Bool} {rest : Glob} {ps : Part × List Part}
    (hc : (c == '*' || c == '?') = false)
    (h : Written ps (rest.splitOn d).1 (rest.splitOn d).2) :
    Written (place d afterStar c ps) ((char c rest).splitOn d).1 ((char c rest).splitOn d).2 := by
  have hstar : (afterStar && c == '*') = false := by
    rw [(Bool.or_eq_false_iff.mp hc).1, Bool.and_false]
  rw [place_eq, hstar]
  simp only [splitOn]
  by_cases hd : c = d
  · rw [if_pos hd, if_pos hd]
    exact ⟨.done, .cons h.head h.tail⟩
  · rw [if_neg hd, if_neg hd]
    exact h.front (writes_bare hc)

/-- **The parts of a pattern without wildcards** write what they are spelled with. -/
theorem writes_parts (d : Char) (afterStar : Bool) (g : Glob) (h : g.isMagic = false) :
    Written (parts d afterStar g) (g.splitOn d).1 (g.splitOn d).2 := by
  induction d, afterStar, g using parts.induct with
  | case1 d afterStar => exact ⟨.done, .nil⟩
  | case2 d afterStar c body rest =>
    rw [isMagic, isMagic, Bool.or_true] at h
    cases h
  | case3 d afterStar c body rest =>
    rw [isMagic, isMagic, Bool.or_true] at h
    cases h
  | case4 d afterStar c rest hno ih =>
    rw [isMagic, Bool.or_eq_false_iff] at h
    rw [parts.eq_3 _ _ _ _ hno]
    exact written_place h.1 (ih h.2)
  | case5 d afterStar c rest _ _ _ ih =>
    rw [parts]
    exact (ih h).front fun hp => hp.char c
  | case6 => cases h
  | case7 => cases h
  | case8 d afterStar body rest _ _ _ ihb ihr =>
    rw [isMagic, Bool.or_eq_false_iff, Bool.or_eq_false_iff, Bool.or_eq_false_iff] at h
    obtain ⟨⟨⟨hbare, hexpand⟩, hbody⟩, hrest⟩ := h
    have hwritten := ihb hbody
    rw [splitOn_of_not_hasBare hbare] at hwritten
    have hone : (parts ',' false body).2 = [] := List.forall₂_nil_right_iff.mp hwritten.tail
    have hnone : Range.expand? body.text = none := by
      rwa [Option.isSome_eq_false_iff, Option.isNone_iff_eq_none] at hexpand
    have hclose : (Regex.char '}' .done).Writes ['}'] := Regex.Writes.done.char '}'
    have hfront := (hwritten.head.append hclose).char '{'
    rw [parts]
    refine (ihr hrest).front fun hp => ?_
    have hwhole := hfront.append hp
    have hplain : ((group .braces body rest).splitOn d).1.plain =
        '{' :: (body.plain ++ ['}']) ++ (rest.splitOn d).1.plain := by
      simp [splitOn, plain, Grouping.opener, Grouping.closer]
    simp only [Part.before, hone, hnone, ne_eq, not_true_eq_false, if_false, hplain]
    exact hwhole

theorem not_isGlobstar {g : Glob} (h : g.isMagic = false) : ¬ g.IsGlobstar := by
  intro ⟨hlen, hall⟩
  cases g with
  | done => exact absurd hlen (by decide)
  | char c rest =>
    rw [isMagic, Bool.or_eq_false_iff, Bool.or_eq_false_iff] at h
    rw [text, List.all_cons, h.1.1] at hall
    cases hall
  | escaped c rest => cases hall
  | bracket body rest => cases h
  | group k body rest => cases k <;> cases hall

/-- The regex of a segment without wildcards writes what it is spelled with. -/
theorem writes_segment (dot : Bool) {g : Glob} (h : g.isMagic = false)
    (hbare : g.hasBare '/' = false) : (g.segment dot).regex.Writes g.plain := by
  have hwritten := (writes_parts '/' false g h).head
  rw [splitOn_of_not_hasBare hbare] at hwritten
  rw [segment_of_not_isGlobstar dot (not_isGlobstar h), h, Bool.and_false]
  exact hwritten

end Glob

/-! ## 4. Whole patterns -/

namespace Segmentation

/-- The regex of segments without wildcards writes them with separators between them. -/
theorem writes_joined (dot : Bool) {first : Glob} {others : List Glob}
    (h : ∀ p ∈ first :: others, p.isMagic = false ∧ p.hasBare '/' = false) :
    (joined ((first :: others).map (Glob.segment dot))).Writes
      (first.plain ++ others.flatMap fun p => '/' :: p.plain) := by
  induction others generalizing first with
  | nil =>
    obtain ⟨⟨hmagic, hbare⟩, -⟩ := List.forall_mem_cons.mp h
    rw [List.flatMap_nil, List.append_nil]
    exact Glob.writes_segment dot hmagic hbare
  | cons second others ih =>
    obtain ⟨⟨hmagic, hbare⟩, hothers⟩ := List.forall_mem_cons.mp h
    have hsep := Regex.Writes.literal (l := .escaped '/') (ih hothers)
    exact (Glob.writes_segment dot hmagic hbare).append hsep

/-- **The regex of a pattern without wildcards** writes what the pattern is spelled with. -/
theorem writes_segments (dot : Bool) {input : List Char}
    (h : (Glob.read (body input)).isMagic = false) :
    (joined (Segment.fold (.wholeSegment dot) (plainSegments dot input))).Writes
      (Glob.read (body input)).plain := by
  have hpieces := @Glob.isMagic_splitOn '/' _ h
  have hkinds : ∀ s ∈ plainSegments dot input, s.kind ≠ .globstar :=
    List.forall_mem_map.mpr fun p hp =>
      mt (Glob.kind_segment dot p).mp (Glob.not_isGlobstar (hpieces p hp).1)
  rw [fold_eq_self hkinds, ← Glob.plain_splitOn '/']
  exact writes_joined dot hpieces

end Segmentation

/-- **A pattern without wildcards** is found in the text that it is spelled with alone, or with
    `./` in front of it if it begins so. -/
theorem CompiledGlob.isFoundIn_of_not_isMagic {pattern : List Char} {options : Option MatchOptions}
    {negated : Option Bool} {serial : Nat} {g : CompiledGlob}
    (h : CompiledGlob.ofPattern pattern options negated serial = .ok g)
    (hmagic : (Glob.read (Segmentation.body pattern)).isMagic = false)
    (halone : Regex.MatchedAlone g.regex.flags.caseRule
      (Glob.read (Segmentation.body pattern)).plain) (c : List Char) :
    g.isFoundIn c = true ↔
      Segmentation.Leaves pattern c (Glob.read (Segmentation.body pattern)).plain := by
  obtain ⟨-, hfound⟩ := isFoundIn_ofPattern h
  have hwrites := Segmentation.writes_segments (MatchOptions.matchesDot options) hmagic
  have hleading := (Segmentation.spelled_leading pattern).barFree
  rw [hfound]
  refine (Regex.spansUnder_append hleading hwrites.barFree).trans ?_
  simp only [Segmentation.spansUnder_leading, hwrites.spansUnder halone, List.append_nil,
    exists_eq_right]

end Wildcard
