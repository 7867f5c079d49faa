import Wildcard.Proofs.Exclusion
import Wildcard.Proofs.Glob.Balanced
import Wildcard.Proofs.Glob.Relaxation

/-!
# Leading dots and the alternatives that are spelled with one

Where wildcards leave leading dots alone, a group at the beginning of a pattern has a guard: a name
that begins with a dot may pass if an alternative that is spelled with a dot matches its beginning.
The guard only looks ahead. What reads the name afterwards is the whole group, so the alternative
that let the name pass need not be the one that matches.

* `spansUnder_guard_once`: what the guard of a group lets pass.
* `isFoundIn_offered`: the guard and the alternatives, each on its own.
* `ofPattern_leading_dot`: what a pattern accepts of names that begin with a dot, compared with the
  pattern that keeps only the alternatives spelled with one.
-/

namespace Wildcard

/-! ## 1. Guards -/

namespace Glob

open Regex (SpansUnder InsideUnder)

/-- A pattern that takes a group once in front of `rest`, with the alternatives of the group. -/
def Offers (alternatives : List Glob) (rest : Glob) (pattern : List Char) : Prop :=
  ∃ body, read pattern = char '@' (group .parens body rest) ∧ body.pieces '|' = alternatives

/-- The pattern is spelled with a leading dot. -/
def IsDotted (g : Glob) : Prop := g.text.head? = some '.'

theorem Offers.eq {alternatives alternatives' : List Glob} {rest rest' : Glob} {pattern : List Char}
    (h : Offers alternatives rest pattern) (h' : Offers alternatives' rest' pattern) :
    alternatives = alternatives' := by
  obtain ⟨body, hread, rfl⟩ := h
  obtain ⟨body', hread', rfl⟩ := h'
  rw [(group.inj (char.inj (hread.symm.trans hread')).2).2.1]

/-- Balanced texts with bars between them are offered by the pattern that has them in a group. -/
theorem offers_intercalate {texts : List (List Char)} (hne : texts ≠ [])
    (h : ∀ x ∈ texts, IsAlternative '|' x) (cs : List Char) :
    Offers (texts.map read) (read cs) ('@' :: '(' :: (['|'].intercalate texts ++ ')' :: cs)) := by
  obtain ⟨x, xs, rfl⟩ := List.exists_cons_of_ne_nil hne
  obtain ⟨hbalanced, hdepth, hpieces⟩ := read_intercalate (by decide) h
  refine ⟨_, ?_, hpieces⟩
  rw [read_mark rfl]
  exact congrArg (char '@') (read_group .parens hbalanced hdepth cs)

instance : DecidablePred IsDotted := fun g => inferInstanceAs (Decidable (g.text.head? = some '.'))

variable {flags : Regex.Flags} {text u v : List Char} {body rest : Glob}

/-- The guard of a group that is taken once. -/
theorem guard_once (body rest : Glob) :
    (char '@' (group .parens body rest)).guard =
      match (body.pieces '|').filter (IsDotted ·) with
      | d :: ds => .grouped (.notDot (.bar (.group .ahead
          (.alternatives (d.alternative '|') (ds.map (alternative '|'))) .once .done))) .once
      | [] => .notDot .done := by
  have hdotted : body.dotted = (body.pieces '|').filter (IsDotted ·) := by
    refine List.filter_congr fun a _ => ?_
    rw [Bool.eq_iff_iff, beq_iff_eq, decide_eq_true_iff]
    exact Iff.rfl
  rw [guard_of_isGroupMark rfl, hdotted]
  cases (body.pieces '|').filter (IsDotted ·) with
  | nil => rfl
  | cons d ds => rfl

theorem barFree_guard_once (body rest : Glob) :
    (char '@' (group .parens body rest)).guard.BarFree := by
  rw [guard_once]
  split <;> trivial

/-- Without alternatives that are spelled with a dot, no leading dot passes. -/
theorem spansUnder_guard_undotted (hno : ∀ a ∈ body.pieces '|', ¬ a.IsDotted) :
    SpansUnder flags text (char '@' (group .parens body rest)).guard u v ↔
      u.head? ≠ some '.' ∧ u = v := by
  rw [guard_once, List.filter_eq_nil_iff.mpr fun a ha => by simpa using hno a ha]
  exact Regex.spansUnder_notDot_done

/-- **The guard of a group that is taken once** lets a leading dot pass where an alternative that is
    spelled with one matches. -/
theorem spansUnder_guard_once (heven : ∀ a ∈ body.pieces '|', FoldsEvenly flags a.text) :
    SpansUnder flags text (char '@' (group .parens body rest)).guard u v ↔
      (u.head? ≠ some '.' ∨
        ∃ a ∈ body.pieces '|', a.IsDotted ∧ ∃ w, SpansUnder flags text (a.alternative '|') u w) ∧
      u = v := by
  have hmem {a : Glob} : a ∈ (body.pieces '|').filter (IsDotted ·) ↔
      a ∈ body.pieces '|' ∧ a.IsDotted := by
    rw [List.mem_filter, decide_eq_true_iff]
  cases hdotted : (body.pieces '|').filter (IsDotted ·) with
  | nil =>
    have hno : ∀ a ∈ body.pieces '|', ¬ a.IsDotted := fun a ha hdot => by
      have := hmem.mpr ⟨ha, hdot⟩
      rw [hdotted] at this
      cases this
    rw [spansUnder_guard_undotted hno]
    refine and_congr_left' (or_iff_left ?_).symm
    rintro ⟨a, ha, hdot, -⟩
    exact hno a ha hdot
  | cons d ds =>
    rw [hdotted] at hmem
    rw [guard_once, hdotted, Regex.spansUnder_notDot_or_ahead]
    simp only [insideUnder_alternative fun _ a ha => heven a (hmem.mp ha).1]
    refine and_congr_left' (or_congr_right ?_)
    constructor
    · rintro ⟨w, a, ha, hw⟩
      exact ⟨a, (hmem.mp ha).1, (hmem.mp ha).2, w, hw⟩
    · rintro ⟨a, ha, hdot, w, hw⟩
      exact ⟨w, a, hmem.mpr ⟨ha, hdot⟩, hw⟩

/-- Its separators all divide segments if those of its pieces do. -/
theorem separated_pieces (d : Char) {g : Glob} : g.Separated ↔ ∀ p ∈ g.pieces d, p.Separated := by
  induction g with
  | done => exact List.forall_mem_singleton.symm
  | char c rest ih =>
    simp only [pieces, splitOn]
    split
    · rw [List.forall_mem_cons, ← pieces]
      exact ih.trans (and_iff_right trivial).symm
    · rw [List.forall_mem_cons]
      exact ih.trans List.forall_mem_cons
  | escaped c rest ih =>
    simp only [pieces, splitOn, Separated, ih, List.forall_mem_cons, and_assoc]
  | bracket body rest ih =>
    simp only [pieces, splitOn, Separated, ih, List.forall_mem_cons, and_assoc]
  | group k body rest _ ih =>
    simp only [pieces, splitOn, Separated, ih, List.forall_mem_cons, and_assoc]

/-- A character that is no delimiter stands in a pattern if it stands in one of its pieces. -/
theorem mem_text_pieces {c d : Char} (h : c ≠ d) {g : Glob} :
    c ∈ g.text ↔ ∃ p ∈ g.pieces d, c ∈ p.text := by
  rw [← text_splitOn d g]
  simp only [List.mem_append, List.mem_flatMap, List.mem_cons, h, false_or, pieces,
    exists_eq_or_imp]

end Glob

/-! ## 2. Compiled patterns -/

namespace CompiledGlob

open Glob (Offers FoldsEvenly IsDotted)
open Regex (SpansUnder)

variable {pattern pattern' : List Char} {options options' : Option MatchOptions}
  {negated : Option Bool} {serial : Nat} {g g' : CompiledGlob} {alternatives : List Glob}
  {rest rest' : Glob}

section Offered

variable (hoffers : Offers alternatives rest pattern)

include hoffers

theorem exists_cons_of_offers : ∃ cs, pattern = '@' :: cs := by
  obtain ⟨body, hread, -⟩ := hoffers
  refine ⟨(Glob.group .parens body rest).text, ?_⟩
  rw [← Glob.text_read pattern, hread]
  rfl

theorem currentDirectory?_of_offers : currentDirectory? pattern = none := by
  obtain ⟨cs, rfl⟩ := exists_cons_of_offers hoffers
  refine Option.eq_none_iff_forall_ne_some.mpr fun r hr => ?_
  exact absurd (List.cons.inj (currentDirectory?_eq_some.mp hr)).1 (by decide)

/-- The classes of the pattern are those of its alternatives and of the rest. -/
theorem inOrder_of_offers : (Glob.read (Segmentation.body pattern)).InOrder ↔
    (∀ a ∈ alternatives, a.InOrder) ∧ rest.InOrder := by
  have hbody : Segmentation.body pattern = pattern := by
    rw [Segmentation.body, currentDirectory?_of_offers hoffers, Option.getD_none]
  obtain ⟨body, hread, rfl⟩ := hoffers
  rw [hbody, hread, ← Glob.inOrder_pieces]
  exact @Glob.inOrder_group .parens body rest

theorem separated_of_offers : (Glob.read pattern).Separated ↔
    (∀ a ∈ alternatives, '/' ∉ a.text ∧ a.Separated) ∧ rest.Separated := by
  obtain ⟨body, hread, rfl⟩ := hoffers
  have hslash : '/' ∉ body.text ↔ ∀ a ∈ body.pieces '|', '/' ∉ a.text := by
    rw [Glob.mem_text_pieces (by decide : '/' ≠ '|')]
    simp only [not_exists, not_and]
  rw [hread]
  simp only [Glob.Separated, hslash, Glob.separated_pieces '|' (g := body), forall_and, and_assoc]

/-- What an alternative leaves of a name has no separator if the name has none. -/
theorem not_mem_of_alternative {flags : Regex.Flags} (hclasses : (Glob.read pattern).Separated)
    (heven : ∀ a ∈ alternatives, FoldsEvenly flags a.text) {a : Glob} (ha : a ∈ alternatives)
    {c w : List Char} (hc : '/' ∉ c) (hw : SpansUnder flags c (a.alternative '|') c w) : '/' ∉ w := by
  obtain ⟨body, hread, rfl⟩ := hoffers
  rw [hread] at hclasses
  have hinside := (Glob.insideUnder_pieces rfl fun _ => heven).mpr ⟨a, ha, hw⟩
  obtain ⟨x, -, hcx⟩ :=
    (@Glob.local_insideUnder flags c _ hclasses.2.1 hclasses.1).within c w hinside
  rw [hcx] at hc
  exact fun hmem => hc (List.mem_append_right x hmem)

/-- With some of its alternatives, and with a rest whose classes are in order, the pattern compiles
    as well. -/
theorem exists_ofPattern_of_offers (h : ofPattern pattern options negated serial = .ok g)
    (hsame : MatchOptions.regexFlags options' = MatchOptions.regexFlags options)
    {some : List Glob} (hsome : some ⊆ alternatives) (hoffers' : Offers some rest' pattern')
    (hrest : rest.InOrder → rest'.InOrder) :
    ∃ g', ofPattern pattern' options' negated serial = .ok g' := by
  refine exists_ofPattern_of_inOrder h hsame fun hin => ?_
  obtain ⟨hall, hin⟩ := (inOrder_of_offers hoffers).mp hin
  exact (inOrder_of_offers hoffers').mpr ⟨fun a ha => hall a (hsome ha), hrest hin⟩

variable (hbare : rest.hasBare '/' = false)
  (h : ofPattern pattern options negated serial = .ok g)

include hbare h

/-- A guard, if wildcards leave leading dots alone, and the part behind it. -/
theorem isFoundIn_of_offers (c : List Char) :
    g.isFoundIn c = true ↔
      (MatchOptions.matchesDot options = true ∨
          SpansUnder g.regex.flags c (Glob.read pattern).guard c c) ∧
        SpansUnder g.regex.flags c (Glob.parts '/' false (Glob.read pattern)).1.regex c [] := by
  have hdir := currentDirectory?_of_offers hoffers
  have hstars : ¬ (Glob.read pattern).IsGlobstar := by
    obtain ⟨cs, rfl⟩ := exists_cons_of_offers hoffers
    exact not_isGlobstar_read (.inl (by decide))
  have hpart := Glob.barFree_parts '/' false (Glob.read pattern) _ List.mem_cons_self
  obtain ⟨body, hread, -⟩ := hoffers
  have hmagic : (Glob.read pattern).isMagic = true := by
    rw [hread]
    rfl
  have hguard : (Glob.read pattern).guard.BarFree := by
    rw [hread]
    exact Glob.barFree_guard_once body rest
  rw [isFoundIn_iff_segment hdir (by rw [hread]; exact Glob.hasBare_marked rfl hbare) hstars h,
    Glob.segment_of_not_isGlobstar _ hstars, hmagic, Bool.and_true]
  cases MatchOptions.matchesDot options with
  | true => exact (and_iff_right (.inl rfl)).symm
  | false =>
    rw [Bool.not_false, if_pos rfl, Regex.spansUnder_append hguard hpart]
    have hstays {u v : List Char} (hu : SpansUnder g.regex.flags c (Glob.read pattern).guard u v) :
        u = v := by
      obtain ⟨P, -, hspans⟩ := @Glob.guards_guard g.regex.flags c (Glob.read pattern)
      exact ((hspans u v).mp hu).2
    constructor
    · rintro ⟨w, hw, hend⟩
      obtain rfl := hstays hw
      exact ⟨.inr hw, hend⟩
    · rintro ⟨hw, hend⟩
      exact ⟨c, hw.resolve_left Bool.false_ne_true, hend⟩

/-- If its classes match no separator, the pattern keeps within a segment. -/
theorem not_mem_of_isFoundIn (hclasses : (Glob.read pattern).Separated) (c : List Char)
    (hc : g.isFoundIn c = true) : '/' ∉ c := by
  obtain ⟨-, hpart⟩ := (isFoundIn_of_offers hoffers hbare h c).mp hc
  obtain ⟨x, hx, hcx⟩ := (Glob.local_spansUnder_parts hclasses).within c [] hpart
  rwa [hcx, List.append_nil]

/-- **The guard and the alternatives:** an alternative that is spelled with a dot lets a leading dot
    pass, and an alternative matches, with the rest behind it. -/
theorem isFoundIn_offered (heven : ∀ a ∈ alternatives, FoldsEvenly g.regex.flags a.text)
    (c : List Char) :
    g.isFoundIn c = true ↔
      (MatchOptions.matchesDot options = true ∨ c.head? ≠ some '.' ∨
          ∃ a ∈ alternatives, a.IsDotted ∧ ∃ w, SpansUnder g.regex.flags c (a.alternative '|') c w) ∧
        ∃ a ∈ alternatives, ∃ w, SpansUnder g.regex.flags c (a.alternative '|') c w ∧
          SpansUnder g.regex.flags c (Glob.parts '/' false rest).1.regex w [] := by
  rw [isFoundIn_of_offers hoffers hbare h]
  obtain ⟨body, hread, rfl⟩ := hoffers
  have hrest := Glob.barFree_parts '/' false rest _ List.mem_cons_self
  rw [hread, Glob.spansUnder_guard_once heven, Glob.regex_parts_marked rfl,
    Glob.marked_of_ne rfl (by decide)]
  refine and_congr (or_congr_right (and_iff_left rfl)) ?_
  rw [Regex.spansUnder_group hrest]
  simp only [Glob.quantifierOf, Regex.Quantifier.Spans, Glob.insideUnder_pieces rfl fun _ => heven]
  constructor
  · rintro ⟨w, ⟨a, ha, hw⟩, hend⟩
    exact ⟨a, ha, w, hw, hend⟩
  · rintro ⟨a, ha, w, hw, hend⟩
    exact ⟨w, ⟨a, ha, hw⟩, hend⟩

end Offered

/-- Whether a candidate is accepted can be told for the candidate alone, if the pattern keeps within
    a segment. -/
theorem accepts_of_offers (hoffers : Offers alternatives rest pattern)
    (hbare : rest.hasBare '/' = false)
    (h : ofPattern pattern options negated serial = .ok g)
    (hclasses : (Glob.read pattern).Separated) (c : List Char) : g.accepts c = g.isFoundIn c :=
  accepts_eq_isFoundIn (not_mem_of_isFoundIn hoffers hbare h hclasses) c

/-- The star at the end of a pattern spans what has no separator. -/
theorem spansUnder_star {flags : Regex.Flags} {text w : List Char} :
    SpansUnder flags text (Glob.parts '/' false (.char '*' .done)).1.regex w [] ↔ '/' ∉ w := by
  have hregex : (Glob.parts '/' false (.char '*' .done)).1.regex =
      .single .notSeparator .star .done := rfl
  rw [hregex, Regex.spansUnder_stars Regex.barFree_done]
  constructor
  · rintro ⟨x, w', hx, rfl, hw'⟩
    rw [Regex.spansUnder_done.mp hw', List.append_nil]
    exact hx
  · intro hw
    exact ⟨w, [], hw, (List.append_nil w).symm, Regex.spansUnder_done.mpr rfl⟩

theorem head?_unify {c : List Char} (hc : c.head? = some '.') :
    (Path.unify c).head? = some '.' := by
  obtain ⟨rest, rfl⟩ := List.head?_eq_some_iff.mp hc
  rw [Path.unify_cons (by decide)]
  rfl

/-- What is found in names that begin with a dot is accepted there. -/
theorem accepts_mono_of_head
    (h : ∀ c, c.head? = some '.' → g.isFoundIn c = true → g'.isFoundIn c = true) {c : List Char}
    (hc : c.head? = some '.') (haccepts : g.accepts c = true) : g'.accepts c = true := by
  rw [accepts_iff] at haccepts ⊢
  exact haccepts.imp (h c hc) (h _ (head?_unify hc))

section Opening

variable (hoffers : Offers alternatives rest pattern)
  (h : ofPattern pattern options negated serial = .ok g)
  (heven : ∀ a ∈ alternatives, FoldsEvenly g.regex.flags a.text)
  (hclasses : (Glob.read pattern).Separated) (hdot : MatchOptions.matchesDot options' = true)
  (hsame : MatchOptions.regexFlags options' = MatchOptions.regexFlags options)
  {some : List Glob} {opening : List Char} {led : CompiledGlob}
  (hopening : Offers some (.char '*' .done) opening) (hsome : some ⊆ alternatives)
  (hled : ofPattern opening options' negated serial = .ok led)

include hoffers h heven hclasses hdot hsame hopening hsome hled

/-- Where wildcards match leading dots, some alternatives in front of a star accept the names
    without separators whose beginning one of them matches. -/
theorem accepts_opening {c : List Char} (hc : '/' ∉ c) :
    led.accepts c = true ↔ ∃ a ∈ some, ∃ w, SpansUnder g.regex.flags c (a.alternative '|') c w := by
  have hflags := flags_eq h hled hsame
  have hseparated : (Glob.read opening).Separated := (separated_of_offers hopening).mpr
    ⟨fun a ha => ((separated_of_offers hoffers).mp hclasses).1 a (hsome ha), trivial⟩
  rw [accepts_of_offers hopening rfl hled hseparated, isFoundIn_offered hopening rfl hled
    (fun a ha => by rw [hflags]; exact heven a (hsome ha)), hdot, hflags]
  simp only [spansUnder_star, true_or, true_and]
  constructor
  · rintro ⟨a, ha, w, hw, -⟩
    exact ⟨a, ha, w, hw⟩
  · rintro ⟨a, ha, w, hw⟩
    exact ⟨a, ha, w, hw, not_mem_of_alternative hoffers hclasses heven (hsome ha) hc hw⟩

end Opening

section LeadingDot

variable (hdot : MatchOptions.matchesDot options = false)
  (hoffers : Offers alternatives rest pattern) (hbare : rest.hasBare '/' = false)
  (h : ofPattern pattern options negated serial = .ok g)

include hdot hoffers hbare h

/-- Without alternatives that are spelled with a dot, no leading dot is accepted. -/
theorem not_accepts_of_undotted (hno : ∀ a ∈ alternatives, ¬ a.IsDotted) {c : List Char}
    (hc : c.head? = some '.') : g.accepts c = false := by
  have hnone (c : List Char) (hc : c.head? = some '.') : ¬ g.isFoundIn c = true := by
    intro hfound
    obtain ⟨hguard, -⟩ := (isFoundIn_of_offers hoffers hbare h c).mp hfound
    rw [hdot] at hguard
    obtain ⟨body, hread, rfl⟩ := hoffers
    rw [hread, Glob.spansUnder_guard_undotted hno] at hguard
    exact hguard.elim Bool.false_ne_true fun hhead => hhead.1 hc
  rw [← Bool.not_eq_true, accepts_iff]
  exact not_or.mpr ⟨hnone c hc, hnone _ (head?_unify hc)⟩

variable (heven : ∀ a ∈ alternatives, FoldsEvenly g.regex.flags a.text)

include heven

/-- Of the names that begin with a dot, the pattern accepts those whose beginning an alternative
    matches that is spelled with one, and that any alternative matches with the rest. -/
theorem isFoundIn_of_head {c : List Char} (hc : c.head? = some '.') :
    g.isFoundIn c = true ↔
      (∃ a ∈ alternatives, a.IsDotted ∧ ∃ w, SpansUnder g.regex.flags c (a.alternative '|') c w) ∧
        ∃ a ∈ alternatives, ∃ w, SpansUnder g.regex.flags c (a.alternative '|') c w ∧
          SpansUnder g.regex.flags c (Glob.parts '/' false rest).1.regex w [] := by
  rw [isFoundIn_offered hoffers hbare h heven, hdot]
  simp only [Bool.false_eq_true, false_or, hc, ne_eq, not_true_eq_false]

variable {dotted : List Char} {few : CompiledGlob}
  (hdotted : Offers (alternatives.filter (IsDotted ·)) rest dotted)
  (hfew : ofPattern dotted options negated serial = .ok few)

include hdotted hfew

omit hoffers in
/-- With only the alternatives that are spelled with a dot, one of them matches with the rest. -/
theorem isFoundIn_dotted {c : List Char} (hc : c.head? = some '.') :
    few.isFoundIn c = true ↔
      ∃ a ∈ alternatives, a.IsDotted ∧ ∃ w, SpansUnder g.regex.flags c (a.alternative '|') c w ∧
        SpansUnder g.regex.flags c (Glob.parts '/' false rest).1.regex w [] := by
  have hflags := flags_eq h hfew rfl
  have hmem {a : Glob} : a ∈ alternatives.filter (IsDotted ·) ↔ a ∈ alternatives ∧ a.IsDotted := by
    rw [List.mem_filter, decide_eq_true_iff]
  rw [isFoundIn_of_head hdot hdotted hbare hfew
    (fun a ha => by rw [hflags]; exact heven a (hmem.mp ha).1) hc, hflags]
  simp only [hmem, and_assoc]
  refine and_iff_right_of_imp ?_
  rintro ⟨a, ha, hadot, w, hw, -⟩
  exact ⟨a, ha, hadot, hadot, w, hw⟩

theorem accepts_of_dotted {c : List Char} (hc : c.head? = some '.')
    (haccepts : few.accepts c = true) : g.accepts c = true := by
  refine accepts_mono_of_head (fun c hc hfound => ?_) hc haccepts
  obtain ⟨a, ha, hadot, w, hw, hend⟩ :=
    (isFoundIn_dotted hdot hbare h heven hdotted hfew hc).mp hfound
  exact (isFoundIn_of_head hdot hoffers hbare h heven hc).mpr
    ⟨⟨a, ha, hadot, w, hw⟩, a, ha, w, hw, hend⟩

section Separated

variable (hclasses : (Glob.read pattern).Separated)
  (hdot' : MatchOptions.matchesDot options' = true)
  (hsame : MatchOptions.regexFlags options' = MatchOptions.regexFlags options)
  {opening : List Char} {led all others : CompiledGlob}

include hclasses hdot' hsame

omit hdotted hfew in
/-- A name that begins with a dot is accepted if the guard lets it pass, and if it is accepted where
    wildcards match leading dots. -/
theorem accepts_iff_led_and_all
    (hopening : Offers (alternatives.filter (IsDotted ·)) (.char '*' .done) opening)
    (hled : ofPattern opening options' negated serial = .ok led)
    (hall : ofPattern pattern options' negated serial = .ok all) {c : List Char}
    (hc : c.head? = some '.') :
    g.accepts c = true ↔ led.accepts c = true ∧ all.accepts c = true := by
  have hflags := flags_eq h hall hsame
  have hslash : all.isFoundIn c = true → '/' ∉ c :=
    not_mem_of_isFoundIn hoffers hbare hall hclasses c
  have hfound := isFoundIn_offered hoffers hbare hall (by rw [hflags]; exact heven) c
  rw [hdot', hflags, and_iff_right (.inl rfl)] at hfound
  rw [accepts_of_offers hoffers hbare h hclasses, accepts_of_offers hoffers hbare hall hclasses,
    isFoundIn_of_head hdot hoffers hbare h heven hc, ← hfound]
  refine and_congr_left fun hmatch => ?_
  rw [accepts_opening hoffers h heven hclasses hdot' hsame hopening (List.filter_subset_self _) hled
    (hslash hmatch)]
  simp only [List.mem_filter, decide_eq_true_iff, and_assoc]

/-- If no other alternative matches the beginning, then those that are spelled with a dot decide. -/
theorem accepts_iff_dotted
    (hopening : Offers (alternatives.filter (¬ IsDotted ·)) (.char '*' .done) opening)
    (hothers : ofPattern opening options' negated serial = .ok others) {c : List Char}
    (hc : c.head? = some '.') (hreject : others.accepts c = false) :
    g.accepts c = true ↔ few.accepts c = true := by
  refine ⟨fun haccepts => ?_, accepts_of_dotted hdot hoffers hbare h heven hdotted hfew hc⟩
  rw [accepts_of_offers hoffers hbare h hclasses] at haccepts
  have hslash := not_mem_of_isFoundIn hoffers hbare h hclasses c haccepts
  obtain ⟨-, a, ha, w, hw, hend⟩ :=
    (isFoundIn_of_head hdot hoffers hbare h heven hc).mp haccepts
  rw [accepts_iff, isFoundIn_dotted hdot hbare h heven hdotted hfew hc]
  refine .inl ⟨a, ha, Classical.byContradiction fun hundotted => ?_, w, hw, hend⟩
  rw [← Bool.not_eq_true, accepts_opening hoffers h heven hclasses hdot' hsame hopening
    (List.filter_subset_self _) hothers hslash] at hreject
  exact hreject ⟨a, List.mem_filter.mpr ⟨ha, decide_eq_true hundotted⟩, w, hw⟩

end Separated

end LeadingDot

/-- **Leading dots in front of alternatives:** without an alternative that is spelled with a dot,
    none is accepted. Otherwise the pattern accepts whatever it accepts with these alternatives
    alone. If it keeps within a segment, then it accepts exactly those names that begin with a dot
    whose beginning one of these alternatives matches and that it would accept if wildcards matched
    leading dots; where no other alternative matches the beginning, these alone decide. -/
theorem ofPattern_leading_dot {inside rest : List Char}
    (hdot : MatchOptions.matchesDot options = false)
    (hpair : (1, inside.length + 2) ∈ Glob.pairsOf ('@' :: '(' :: (inside ++ ')' :: rest)))
    (hbare : (Glob.read rest).hasBare '/' = false)
    (h : ofPattern ('@' :: '(' :: (inside ++ ')' :: rest)) options negated serial = .ok g) :
    ∃ alternatives,
      Offers alternatives (Glob.read rest) ('@' :: '(' :: (inside ++ ')' :: rest)) ∧
      ((∀ a ∈ alternatives, ¬ a.IsDotted) → ∀ c, c.head? = some '.' → g.accepts c = false) ∧
      (FoldsEvenly g.regex.flags inside → ∀ dotted,
        Offers (alternatives.filter (IsDotted ·)) (Glob.read rest) dotted →
        ∃ few, ofPattern dotted options negated serial = .ok few ∧
          (∀ c, c.head? = some '.' → few.accepts c = true → g.accepts c = true) ∧
          ((Glob.read ('@' :: '(' :: (inside ++ ')' :: rest))).Separated →
            ∀ options', MatchOptions.matchesDot options' = true →
              MatchOptions.regexFlags options' = MatchOptions.regexFlags options →
              (∀ opening, Offers (alternatives.filter (IsDotted ·)) (.char '*' .done) opening →
                ∃ led all, ofPattern opening options' negated serial = .ok led ∧
                  ofPattern ('@' :: '(' :: (inside ++ ')' :: rest)) options' negated serial =
                    .ok all ∧
                  ∀ c, c.head? = some '.' →
                    (g.accepts c = true ↔ led.accepts c = true ∧ all.accepts c = true)) ∧
              (∀ opening, Offers (alternatives.filter (¬ IsDotted ·)) (.char '*' .done) opening →
                ∃ others, ofPattern opening options' negated serial = .ok others ∧
                  ∀ c, c.head? = some '.' → others.accepts c = false →
                    (g.accepts c = true ↔ few.accepts c = true)))) := by
  obtain ⟨body, hread⟩ := Glob.exists_read_marked rfl hpair
  have hoffers : Offers (body.pieces '|') (Glob.read rest)
      ('@' :: '(' :: (inside ++ ')' :: rest)) := ⟨body, hread '@' rfl, rfl⟩
  refine ⟨body.pieces '|', hoffers,
    fun hno c => not_accepts_of_undotted hdot hoffers hbare h hno, fun hbasic dotted hdotted => ?_⟩
  have heven : ∀ a ∈ body.pieces '|', FoldsEvenly g.regex.flags a.text := by
    intro a ha c hc
    refine hbasic c ?_
    have htext := Glob.text_read ('@' :: '(' :: (inside ++ ')' :: rest))
    rw [hread '@' rfl] at htext
    simp only [Glob.text, Glob.Grouping.opener, Glob.Grouping.closer, Glob.text_read] at htext
    have hinside : body.text = inside :=
      List.append_cancel_right (List.cons.inj (List.cons.inj htext).2).2
    rw [← hinside]
    exact Glob.mem_text_splitOn ha c hc
  obtain ⟨few, hfew⟩ := exists_ofPattern_of_offers hoffers h rfl (List.filter_subset_self _) hdotted id
  refine ⟨few, hfew, fun c => accepts_of_dotted hdot hoffers hbare h heven hdotted hfew,
    fun hclasses options' hdot' hsame => ⟨fun opening hopening => ?_, fun opening hopening => ?_⟩⟩
  · obtain ⟨led, hled⟩ := exists_ofPattern_of_offers hoffers h hsame (List.filter_subset_self _) hopening
      fun _ => List.forall_mem_nil _
    obtain ⟨all, hall⟩ := exists_ofPattern_of_offers hoffers h hsame (List.Subset.refl _) hoffers id
    exact ⟨led, all, hled, hall, fun c hc => accepts_iff_led_and_all hdot hoffers hbare h heven
      hclasses hdot' hsame hopening hled hall hc⟩
  · obtain ⟨others, hothers⟩ := exists_ofPattern_of_offers hoffers h hsame (List.filter_subset_self _)
      hopening fun _ => List.forall_mem_nil _
    exact ⟨others, hothers, fun c hc hreject => accepts_iff_dotted hdot hoffers hbare h heven
      hdotted hfew hclasses hdot' hsame hopening hothers hc hreject⟩

/-- An alternative that is spelled with a dot beside a wildcard. -/
theorem ofPattern_leading_dot_wildcard :
    ∃ g few led all others, ofPattern "@(.a|*b).x".toList none none 0 = .ok g ∧
      ofPattern "@(.a).x".toList none none 0 = .ok few ∧
      ofPattern "@(.a)*".toList (some { dot := true }) none 0 = .ok led ∧
      ofPattern "@(.a|*b).x".toList (some { dot := true }) none 0 = .ok all ∧
      ofPattern "@(*b)*".toList (some { dot := true }) none 0 = .ok others ∧
        ∀ c, c.head? = some '.' → (few.accepts c = true → g.accepts c = true) ∧
          (g.accepts c = true ↔ led.accepts c = true ∧ all.accepts c = true) ∧
          (others.accepts c = false → (g.accepts c = true ↔ few.accepts c = true)) := by
  have h : ofPattern "@(.a|*b).x".toList none none 0 = .ok _ := rfl
  obtain ⟨alternatives, hoffers, -, hlaw⟩ := @ofPattern_leading_dot none none 0 _ ".a|*b".toList
    ".x".toList rfl (by decide) (by decide) h
  obtain rfl := hoffers.eq (@Glob.offers_intercalate [".a".toList, "*b".toList] (by decide)
    (by decide) ".x".toList)
  obtain ⟨few, hfew, hmore, hexact⟩ := hlaw (Glob.foldsEvenly_of_exact rfl _) "@(.a).x".toList
    (@Glob.offers_intercalate [".a".toList] (by decide) (by decide) ".x".toList)
  obtain ⟨hled, hothers⟩ := hexact (by decide) (some { dot := true }) rfl rfl
  obtain ⟨led, all, hled, hall, hiff⟩ := hled "@(.a)*".toList ⟨_, rfl, rfl⟩
  obtain ⟨others, hothers, hdecide⟩ := hothers "@(*b)*".toList ⟨_, rfl, rfl⟩
  exact ⟨_, few, led, all, others, h, hfew, hled, hall, hothers,
    fun c hc => ⟨hmore c hc, hiff c hc, hdecide c hc⟩⟩

/-- The alternative that lets a leading dot pass need not be the one that matches. -/
theorem ofPattern_leading_dot_passed :
    ∃ alternatives rest g few, Offers alternatives rest "@(.|*)x".toList ∧
      Offers (alternatives.filter (IsDotted ·)) rest "@(.)x".toList ∧
      ofPattern "@(.|*)x".toList none none 0 = .ok g ∧
      ofPattern "@(.)x".toList none none 0 = .ok few ∧
        g.accepts ".ax".toList = true ∧ few.accepts ".ax".toList = false := by
  have h : ofPattern "@(.|*)x".toList none none 0 = .ok _ := rfl
  have hfew : ofPattern "@(.)x".toList none none 0 = .ok _ := rfl
  exact ⟨[Glob.chars ['.'], Glob.chars ['*']], Glob.chars ['x'], _, _, ⟨_, rfl, rfl⟩,
    ⟨_, rfl, rfl⟩, h, hfew, by decide +kernel, by decide +kernel⟩

end CompiledGlob

end Wildcard
