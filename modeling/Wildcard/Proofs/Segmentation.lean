import Wildcard.CompiledGlob
import Wildcard.Error
import Wildcard.Matcher
import Wildcard.Proofs.Glob.Class
import Wildcard.Proofs.Glob.Reading
import Wildcard.Proofs.Glob.Translation

/-!
# What a compiled pattern is found in

The regex of every pattern is read back from its text (`isSpelled_middle`), so a pattern that is
compiled is the regex that it was translated to, with its choices marked where case is ignored. It
stands between the two ends of the text: a compiled pattern is found in a candidate exactly if
what stands between spans all of it (`isFoundIn_iff`).
-/

namespace Wildcard

/-! ## 1. Classes are well spelled -/

namespace Bracket

open Regex (Literal Single)

/-- A spelled character that may begin a class without negating it. -/
def StandsFirst (l : Literal) : Prop := l.StandsInSet ∧ l ≠ .bare '^'

theorem standsFirst_member (c : Char) : StandsFirst (.member c) :=
  ⟨Regex.Literal.standsInSet_member c, Regex.Literal.member_ne_circumflex c⟩

theorem namedClasses_spelled :
    ∀ e ∈ namedClasses, e.2 ≠ [] ∧ ∀ l ∈ e.2, StandsFirst l := by
  simp [namedClasses, span, StandsFirst, Literal.StandsInSet]
  decide

/-- The spelled characters of a name are those of a named class. -/
theorem mem_namedClasses {cs : List Char} {literals : List Literal} {n : Nat}
    (h : named? cs = some (literals, n)) : ∃ e ∈ namedClasses, e.2 = literals := by
  obtain ⟨e, he, heq⟩ := Option.map_eq_some_iff.mp h
  exact ⟨e, List.mem_of_find?_eq_some he, (Prod.mk.inj heq).1⟩

/-- What the members of a class are written as is well spelled. -/
theorem standsFirst_itemsFrom (n : Nat) (p : Position) (cs : List Char) :
    ∀ l ∈ itemsFrom n p cs, StandsFirst l := by
  fun_induction itemsFrom n p cs with
  | case1 => simp
  | case2 _ _ _ _ ih => exact ih
  | case3 _ c _ ih => exact List.forall_mem_cons.mpr ⟨standsFirst_member c, ih⟩
  | case4 p c rest _ literals n hn ih =>
    split at hn
    · obtain ⟨e, he, rfl⟩ := mem_namedClasses hn
      exact List.forall_mem_append.mpr ⟨(namedClasses_spelled e he).2, ih⟩
    · cases hn
  | case5 p c rest _ _ ih =>
    refine List.forall_mem_cons.mpr ⟨?_, ih⟩
    split
    · exact ⟨⟨by decide, by decide⟩, by decide⟩
    · exact standsFirst_member c

/-- A class that holds something lists something. -/
theorem itemsFrom_ne_nil (p : Position) {cs : List Char} (h : cs ≠ []) :
    itemsFrom 0 p cs ≠ [] := by
  generalize hzero : 0 = passed
  fun_cases itemsFrom passed p cs with
  | case1 => exact absurd rfl h
  | case2 => cases hzero
  | case3 => exact List.cons_ne_nil _ _
  | case4 _ _ _ _ literals n hn =>
    split at hn
    · obtain ⟨e, he, rfl⟩ := mem_namedClasses hn
      exact List.append_ne_nil_of_left_ne_nil (namedClasses_spelled e he).1 _
    · cases hn
  | case5 => exact List.cons_ne_nil _ _

/-- **A class that holds something is well spelled.** -/
theorem isSpelled_item {body : List Char} (h : body ≠ []) : (item body).IsSpelled := by
  unfold item
  split
  · have hitems := standsFirst_itemsFrom 0 .first body
    refine ⟨itemsFrom_ne_nil .first h, fun l hl => (hitems l hl).1, fun _ hhead => ?_⟩
    exact (hitems _ (List.mem_of_mem_head? hhead)).2 rfl
  · refine ⟨by simp, fun l hl => ?_, by simp⟩
    rcases List.mem_append.mp hl with hl | hl
    · exact (standsFirst_itemsFrom _ _ _ l hl).1
    · rw [List.mem_singleton.mp hl]
      exact ⟨by decide, by decide⟩

end Bracket

/-! ## 2. Segments are translations -/

open Regex (Translation Single)

variable {S : Single → Prop} {L : Prop}

namespace Glob

theorem isSpelled_notSeparator : Single.notSeparator.IsSpelled :=
  ⟨by simp, by simp [Regex.Literal.StandsInSet], by simp⟩

theorem admits_isSpelled : Admits Single.IsSpelled where
  char c _ _ := Regex.Literal.stands_quote c

/-- Whatever is written in a pattern is well spelled, if its classes hold something. -/
theorem writtenIn_isSpelled {g : Glob} (h : g.Filled) (d : Char) :
    g.WrittenIn Single.IsSpelled d := by
  induction g generalizing d with
  | done => trivial
  | char c rest ih =>
    exact ⟨fun _ => .inr rfl, fun _ => Regex.Literal.stands_quote '\\',
      fun _ => isSpelled_notSeparator, ih h d⟩
  | escaped c rest ih => exact ⟨fun _ => Regex.Literal.stands_quote c, ih h d⟩
  | bracket body rest ih => exact ⟨Bracket.isSpelled_item h.1, ih h.2 d⟩
  | group k body rest ihb ihr =>
    cases k with
    | braces => exact ⟨fun _ => Regex.Literal.stands_quote '\\', ihb h.1 ',', ihr h.2 d⟩
    | parens => exact ⟨ihb h.1 '|', ihr h.2 d⟩

theorem splitOn_of_not_hasBare {d : Char} {g : Glob} (h : g.hasBare d = false) :
    g.splitOn d = (g, []) := by
  induction g with
  | done => rfl
  | char c rest ih =>
    obtain ⟨hc, hrest⟩ := Bool.or_eq_false_iff.mp h
    rw [splitOn, ih hrest]
    exact if_neg (ne_of_beq_false hc)
  | escaped c rest ih => rw [splitOn, ih h]
  | bracket b rest ih => rw [splitOn, ih h]
  | group k b rest _ ih => rw [splitOn, ih h]

theorem hasBare_of_not_mem_text {d : Char} {g : Glob} (h : d ∉ g.text) : g.hasBare d = false := by
  induction g with
  | done => rfl
  | char c rest ih =>
    rw [text, List.mem_cons, not_or] at h
    rw [hasBare, ih h.2, Bool.or_false]
    exact beq_false_of_ne (Ne.symm h.1)
  | escaped c rest ih =>
    simp only [text, List.mem_cons, not_or] at h
    exact ih h.2.2
  | bracket body rest ih =>
    simp only [text, List.mem_cons, List.mem_append, not_or] at h
    exact ih h.2.2
  | group k body rest _ ih =>
    simp only [text, List.mem_cons, List.mem_append, not_or] at h
    exact ih h.2.2

/-- The pieces of a pattern, or of the contents of a group. -/
def pieces (d : Char) (body : Glob) : List Glob := (body.splitOn d).1 :: (body.splitOn d).2

theorem opensGroup_splitOn (d : Char) (g : Glob) : (g.splitOn d).1.OpensGroup ↔ g.OpensGroup := by
  cases g with
  | done => exact Iff.rfl
  | char c rest =>
    simp only [splitOn]
    split <;> exact Iff.rfl
  | escaped c rest => exact Iff.rfl
  | bracket b rest => exact Iff.rfl
  | group k b rest => cases k <;> exact Iff.rfl

/-- What a pattern is cut into is written with its separators, wildcards and classes. -/
theorem writtenIn_splitOn {g : Glob} {d : Char} (h : g.WrittenIn S d) :
    ∀ p ∈ g.pieces d, p.WrittenIn S d := by
  induction g with
  | done => exact List.forall_mem_singleton.mpr h
  | char c rest ih =>
    obtain ⟨hsep, hback, hwild, hrest⟩ := h
    have ih := ih hrest
    simp only [pieces, splitOn]
    split
    · exact List.forall_mem_cons.mpr ⟨trivial, ih⟩
    · obtain ⟨hfirst, hothers⟩ := List.forall_mem_cons.mp ih
      have hwild : IsWild c (rest.splitOn d).1 → S .notSeparator := by
        rw [IsWild, opensGroup_splitOn]
        exact hwild
      exact List.forall_mem_cons.mpr ⟨⟨hsep, hback, hwild, hfirst⟩, hothers⟩
  | escaped c rest ih =>
    obtain ⟨hfirst, hothers⟩ := List.forall_mem_cons.mp (ih h.2)
    exact List.forall_mem_cons.mpr ⟨⟨h.1, hfirst⟩, hothers⟩
  | bracket body rest ih =>
    obtain ⟨hfirst, hothers⟩ := List.forall_mem_cons.mp (ih h.2)
    exact List.forall_mem_cons.mpr ⟨⟨h.1, hfirst⟩, hothers⟩
  | group k body rest _ ih =>
    cases k with
    | braces =>
      obtain ⟨hback, hbody, hrest⟩ := h
      obtain ⟨hfirst, hothers⟩ := List.forall_mem_cons.mp (ih hrest)
      exact List.forall_mem_cons.mpr ⟨⟨hback, hbody, hfirst⟩, hothers⟩
    | parens =>
      obtain ⟨hfirst, hothers⟩ := List.forall_mem_cons.mp (ih h.2)
      exact List.forall_mem_cons.mpr ⟨⟨h.1, hfirst⟩, hothers⟩

/-- What a pattern is cut into holds characters of the pattern only. -/
theorem mem_text_splitOn {g p : Glob} {d : Char} (h : p ∈ g.pieces d) :
    ∀ x ∈ p.text, x ∈ g.text := by
  intro x hx
  rw [← text_splitOn d g, List.mem_append]
  rcases List.mem_cons.mp h with rfl | h
  · exact .inl hx
  · exact .inr (List.mem_flatMap.mpr ⟨p, h, List.mem_cons_of_mem d hx⟩)

theorem negationFree_splitOn {g : Glob} {d : Char} (h : g.NegationFree) :
    ∀ p ∈ g.pieces d, p.NegationFree := by
  induction g with
  | done => exact List.forall_mem_singleton.mpr h
  | char c rest ih =>
    have hrest := ih h.2
    simp only [pieces, splitOn]
    split
    · exact List.forall_mem_cons.mpr ⟨trivial, hrest⟩
    · obtain ⟨hfirst, hothers⟩ := List.forall_mem_cons.mp hrest
      refine List.forall_mem_cons.mpr ⟨⟨fun hc => ?_, hfirst⟩, hothers⟩
      rw [opensGroup_splitOn]
      exact h.1 hc
  | escaped c rest ih =>
    obtain ⟨hfirst, hothers⟩ := List.forall_mem_cons.mp (ih h)
    exact List.forall_mem_cons.mpr ⟨hfirst, hothers⟩
  | bracket body rest ih =>
    obtain ⟨hfirst, hothers⟩ := List.forall_mem_cons.mp (ih h)
    exact List.forall_mem_cons.mpr ⟨hfirst, hothers⟩
  | group k body rest _ ih =>
    obtain ⟨hfirst, hothers⟩ := List.forall_mem_cons.mp (ih h.2)
    exact List.forall_mem_cons.mpr ⟨⟨h.1, hfirst⟩, hothers⟩

theorem text_place {d : Char} {afterStar : Bool} {c : Char} {ps : Part × List Part} :
    (place d afterStar c ps).1.text ++ (place d afterStar c ps).2.flatMap (fun p => d :: p.text) =
      c :: (ps.1.text ++ ps.2.flatMap (fun p => d :: p.text)) := by
  rw [place_eq]
  split
  · rename_i h
    simp [h]
  · split <;> simp [Part.before]

/-- The texts of parts, with the delimiters between them, are the text of the pattern. -/
theorem text_parts (d : Char) (afterStar : Bool) (g : Glob) :
    (parts d afterStar g).1.text ++ (parts d afterStar g).2.flatMap (fun p => d :: p.text) =
      g.text := by
  induction d, afterStar, g using parts.induct with
  | case1 d afterStar => rfl
  | case2 d afterStar c body rest hmark _ _ _ _ ih =>
    rw [parts, if_pos hmark]
    simp [text, Grouping.opener, Grouping.closer, ← ih]
  | case3 d afterStar c body rest hmark ih =>
    rw [parts, if_neg hmark, text_place, ih, text]
  | case4 d afterStar c rest hno ih => rw [parts.eq_3 _ _ _ _ hno, text_place, ih, text]
  | case5 d afterStar c rest _ _ _ ih => simp [parts, Part.before, text, ← ih]
  | case6 d afterStar body rest _ _ _ ih => simp [parts, Part.before, text, ← ih]
  | case7 d afterStar body rest _ _ _ _ ih =>
    simp [parts, Part.before, text, Grouping.opener, Grouping.closer, ← ih]
  | case8 d afterStar body rest _ _ _ _ ih =>
    simp [parts, Part.before, text, Grouping.opener, Grouping.closer, ← ih]

theorem mem_text_parts {d : Char} {afterStar : Bool} {g : Glob} {p : Part}
    (h : p ∈ (parts d afterStar g).1 :: (parts d afterStar g).2) : ∀ x ∈ p.text, x ∈ g.text := by
  intro x hx
  rw [← text_parts d afterStar g, List.mem_append]
  rcases List.mem_cons.mp h with rfl | h
  · exact .inl hx
  · exact .inr (List.mem_flatMap.mpr ⟨p, h, List.mem_cons_of_mem d hx⟩)

theorem translation_notDot (hS : Admits S) {rest : Regex} (h : Translation S L rest) :
    Translation S L (.notDot rest) :=
  .notDot (hS.char '.' (by decide) (by decide)) (.inl rfl) h

/-- A guard looks ahead for more than a dot only if the pattern holds one. -/
theorem translation_guard (hS : Admits S) {g : Glob} {d : Char} (hg : g.WrittenIn S d)
    (hL : L ∨ '.' ∉ g.text ∧ g.NegationFree) : Translation S L g.guard := by
  have hplain : Translation S L (.notDot .done) := translation_notDot hS .done
  unfold guard
  split
  · rename_i c body rest
    split
    · have hparts : AreTranslations S L (parts '|' false body) :=
        translation_parts hS '|' false body hg.2.2.2.1 (hL.imp_right fun h => h.2.2.1)
      simp only
      split
      · rename_i p ps hfilter
        have hlook : L := by
          refine hL.resolve_right fun h => h.1 ?_
          have hp : p ∈ p :: ps := List.mem_cons_self
          rw [← hfilter, List.mem_filter, beq_iff_eq] at hp
          have hdot := mem_text_parts hp.1 '.' (List.mem_of_mem_head? hp.2)
          simp [text, hdot]
        split
        · exact hplain
        · have hall : ∀ x ∈ p.regex :: ps.map Part.regex, Translation S L x := by
            rw [← List.map_cons, ← hfilter]
            exact List.forall_mem_map.mpr fun x hx => hparts x (List.mem_filter.mp hx).1
          refine @Translation.group S L (.notDot .done) [_] _ _ ?_ .done
          refine List.forall_mem_cons.mpr ⟨hplain, List.forall_mem_singleton.mpr ?_⟩
          exact .ahead hlook hall .done
      · exact hplain
    · exact .done
  · split
    · exact hplain
    · exact .done
  · exact hplain
  · exact .done

/-- The pattern is a run of two or more stars. -/
def IsGlobstar (g : Glob) : Prop := g.text.length > 1 ∧ g.text.all (· == '*') = true

instance (g : Glob) : Decidable g.IsGlobstar :=
  inferInstanceAs (Decidable (g.text.length > 1 ∧ g.text.all (· == '*') = true))

/-- A globstar is a wildcard. -/
theorem WrittenIn.of_isGlobstar {g : Glob} {d : Char} (hg : g.WrittenIn S d) (h : g.IsGlobstar) :
    S .notSeparator := by
  obtain ⟨hlength, hstars⟩ := h
  cases g with
  | char c rest =>
    obtain ⟨hc, hrest⟩ := List.forall_mem_cons.mp (List.all_eq_true.mp hstars)
    refine hg.2.2.1 (.inl ⟨.inl (beq_iff_eq.mp hc), fun hopens => ?_⟩)
    obtain ⟨body, rest, rfl⟩ := opensGroup_iff.mp hopens
    exact absurd (hrest '(' List.mem_cons_self) (by decide)
  | done => exact absurd hlength (by simp [text])
  | escaped c rest => simp [text] at hstars
  | bracket body rest => simp [text] at hstars
  | group k body rest => cases k <;> simp [text, Grouping.opener] at hstars

theorem translation_wholeSegment (hS : Admits S) (hwild : S .notSeparator) (dot : Bool) :
    Translation S L (.wholeSegment dot) := by
  have hplain : Translation S L (.single .notSeparator .plus .done) := .single hwild .done
  unfold Regex.wholeSegment
  cases dot with
  | true => exact hplain
  | false => exact translation_notDot hS hplain

/-- The regex of a segment is a translation. -/
theorem translation_segment (hS : Admits S) (dot : Bool) {g : Glob} (hg : g.WrittenIn S '/')
    (hL : L ∨ '.' ∉ g.text ∧ g.NegationFree) : Translation S L (g.segment dot).regex := by
  have hparts := translation_parts hS '/' false g hg (hL.imp_right And.right)
  have hvalue := (List.forall_mem_cons.mp hparts).1
  unfold segment
  simp only
  split
  · exact .done
  · split
    · rename_i hstars
      exact translation_wholeSegment hS (hg.of_isGlobstar hstars) dot
    · split
      · refine Translation.append ?_ hvalue
        split
        · exact .done
        · exact translation_guard hS hg hL
      · exact hvalue

end Glob

/-! ## 3. Globstars -/

namespace Glob

theorem kind_segment (dot : Bool) (g : Glob) :
    (g.segment dot).kind = .globstar ↔ g.IsGlobstar := by
  unfold segment IsGlobstar
  simp only
  split
  · rename_i h
    simp [h]
  · split
    · rename_i h
      exact iff_of_true rfl h
    · rename_i h
      split
      · exact iff_of_false (by simp) h
      · exact iff_of_false (by simp) h

/-- The regex of a segment that is no globstar is that of its part, behind a guard if there is
    one. -/
theorem segment_of_not_isGlobstar (dot : Bool) {g : Glob} (h : ¬ g.IsGlobstar) :
    (g.segment dot).regex =
      (if !dot && g.isMagic then g.guard else .done) ++ (parts '/' false g).1.regex := by
  unfold segment IsGlobstar at *
  simp only
  split
  · rename_i hnil
    have hdone : g = done := by
      rw [← List.length_eq_zero_iff, length_text] at hnil
      cases g <;> simp [length] at hnil ⊢
    subst hdone
    cases dot <;> rfl
  · cases dot with
    | true => split <;> rfl
    | false => split <;> simp_all

end Glob

/-! ## 4. Whole patterns -/

namespace Segment

theorem translation_foldRight (hsep : S (.literal (.escaped '/'))) {whole : Regex}
    (hwhole : Translation S L whole) {segments : List Segment}
    (h : ∀ s ∈ segments, Translation S L s.regex) :
    ∀ s ∈ (foldRight whole segments).2, Translation S L s.regex := by
  induction segments with
  | nil => simp [foldRight]
  | cons s rest ih =>
    obtain ⟨hs, hrest⟩ := List.forall_mem_cons.mp h
    have ih := ih hrest
    have hmore : Translation S L (Regex.grouped (.separator whole) .star) :=
      @Translation.group S L (.separator whole) [] _ _
        (List.forall_mem_singleton.mpr (.single hsep hwhole)) .done
    simp only [foldRight]
    split
    · exact ih
    · split
      · refine List.forall_mem_cons.mpr ⟨hs.append (hmore.append ?_), ih⟩
        split
        · exact .single hsep .done
        · exact .done
      · exact List.forall_mem_cons.mpr ⟨hs, ih⟩

theorem translation_fold (hsep : S (.literal (.escaped '/'))) {whole : Regex}
    (hwhole : Translation S L whole) {segments : List Segment}
    (h : ∀ s ∈ segments, Translation S L s.regex) :
    ∀ s ∈ fold whole segments, Translation S L s.regex := by
  have hfolded := translation_foldRight hsep hwhole h
  unfold fold
  generalize foldRight whole segments = result at hfolded
  obtain ⟨pending, folded⟩ := result
  have grouped {r : Regex} {q : Regex.Quantifier} (hr : Translation S L r) :
      Translation S L (Regex.grouped r q) :=
    @Translation.group S L r [] _ _ (List.forall_mem_singleton.mpr hr) .done
  split
  · rename_i heq
    cases heq
    exact hfolded
  · refine List.forall_mem_singleton.mpr (grouped (hwhole.append ?_))
    exact (grouped (.single hsep hwhole)).append (.single hsep .done)
  · rename_i heq
    cases heq
    obtain ⟨hfirst, hothers⟩ := List.forall_mem_cons.mp hfolded
    refine List.forall_mem_cons.mpr ⟨Translation.append (grouped ?_) hfirst, hothers⟩
    exact hwhole.append (.single hsep .done)

end Segment

theorem currentDirectory?_eq_some {pattern rest : List Char} :
    currentDirectory? pattern = some rest ↔ pattern = '.' :: '/' :: rest := by
  unfold currentDirectory?
  split
  · rename_i rest'
    simp [eq_comm]
  · rename_i hno
    exact iff_of_false (by simp) (hno rest)

/-- A pattern without a dot, or without a separator, has no `./` in front. -/
theorem currentDirectory?_eq_none {pattern : List Char} (h : '.' ∉ pattern ∨ '/' ∉ pattern) :
    currentDirectory? pattern = none := by
  refine Option.eq_none_iff_forall_ne_some.mpr fun rest hrest => ?_
  rw [currentDirectory?_eq_some.mp hrest] at h
  simp at h

namespace Segmentation

theorem translation_joined (hsep : S (.literal (.escaped '/'))) {segments : List Segment}
    (h : ∀ s ∈ segments, Translation S L s.regex) : Translation S L (joined segments) := by
  induction segments with
  | nil => exact .done
  | cons s rest ih =>
    obtain ⟨hs, hrest⟩ := List.forall_mem_cons.mp h
    cases rest with
    | nil => exact hs
    | cons s' rest => exact hs.append (.single hsep (ih hrest))

/-- The text of a pattern without a leading `./`. -/
def body (input : List Char) : List Char := (currentDirectory? input).getD input

theorem body_eq_self {input : List Char} (h : '.' ∉ input ∨ '/' ∉ input) : body input = input := by
  rw [body, currentDirectory?_eq_none h, Option.getD_none]

/-- What a candidate may have in front of the segments: `./` if the pattern begins so. -/
def leading (input : List Char) : Regex :=
  if (currentDirectory? input).isSome then
    Regex.grouped (.char '.' (.separator .done)) .optional
  else .done

/-- The segments of a pattern as they stand in it. -/
def plainSegments (dot : Bool) (input : List Char) : List Segment :=
  let pieces := (Glob.read (body input)).splitOn '/'
  (pieces.1 :: pieces.2).map (Glob.segment dot)

/-- What stands between the two ends of the text in the regex of a pattern. -/
def middle (dot : Bool) (input : List Char) : Regex :=
  leading input ++ joined (Segment.fold (.wholeSegment dot) (plainSegments dot input))

/-- An empty pattern has one segment, which is empty. -/
theorem joined_fold_nil (dot : Bool) :
    joined (Segment.fold (.wholeSegment dot)
      ((((Glob.read []).splitOn '/').1 :: ((Glob.read []).splitOn '/').2).map
        (Glob.segment dot))) = .done := rfl

/-- An empty pattern has no segments. -/
theorem segments_ofText (dot : Bool) (negated : Option Bool) (input : List Char) :
    (ofText dot negated input).segments =
      if body input = [] then []
      else Segment.fold (.wholeSegment dot) (plainSegments dot input) := by
  unfold ofText plainSegments body
  cases currentDirectory? input <;> rfl

/-- Of an empty pattern the same is left once its segments are joined. -/
theorem joined_ofText (dot : Bool) (negated : Option Bool) (input : List Char) :
    joined (ofText dot negated input).segments =
      joined (Segment.fold (.wholeSegment dot) (plainSegments dot input)) := by
  rw [segments_ofText]
  split
  · rename_i hnil
    rw [plainSegments, hnil]
    exact (joined_fold_nil dot).symm
  · rfl

/-- The regex of a pattern stands between the two ends of the text. -/
theorem regex_ofText (dot : Bool) (negated : Option Bool) (input : List Char) :
    (ofText dot negated input).regex = .anchor .start (middle dot input ++ closing) := by
  have hopening : (ofText dot negated input).opening = .anchor .start (leading input) := by
    unfold ofText leading
    cases currentDirectory? input <;> rfl
  rw [regex, hopening, joined_ofText, middle, Regex.anchor_append, Regex.append_assoc]

/-- Without globstars there is nothing to fold. -/
theorem fold_eq_self {whole : Regex} {segments : List Segment}
    (h : ∀ s ∈ segments, s.kind ≠ .globstar) : Segment.fold whole segments = segments := by
  have hfold : Segment.foldRight whole segments = (false, segments) := by
    induction segments with
    | nil => rfl
    | cons s rest ih =>
      obtain ⟨hs, hrest⟩ := List.forall_mem_cons.mp h
      rw [Segment.foldRight, ih hrest]
      simp only
      rw [if_neg hs]
      exact if_neg Bool.false_ne_true
  rw [Segment.fold, hfold]

/-- The regexes of the segments of a pattern are translations. -/
theorem translation_folded (hS : Glob.Admits S) (hsep : S (.literal (.escaped '/'))) (dot : Bool)
    {input : List Char} (hg : (Glob.read (body input)).WrittenIn S '/')
    (hL : L ∨ '.' ∉ body input ∧ (Glob.read (body input)).NegationFree) :
    ∀ s ∈ Segment.fold (.wholeSegment dot) (plainSegments dot input), Translation S L s.regex := by
  have hsegments : ∀ s ∈ plainSegments dot input, Translation S L s.regex := by
    refine List.forall_mem_map.mpr fun g hp => ?_
    refine Glob.translation_segment hS dot (Glob.writtenIn_splitOn hg g hp) (hL.imp_right fun h => ?_)
    refine ⟨fun hdot => h.1 ?_, Glob.negationFree_splitOn h.2 g hp⟩
    rw [← Glob.text_read (body input)]
    exact Glob.mem_text_splitOn hp '.' hdot
  by_cases hstars : ∃ s ∈ plainSegments dot input, s.kind = .globstar
  · obtain ⟨s, hs, hkind⟩ := hstars
    obtain ⟨p, hp, rfl⟩ := List.mem_map.mp hs
    have hwild := (Glob.writtenIn_splitOn hg p hp).of_isGlobstar ((Glob.kind_segment dot p).mp hkind)
    exact Segment.translation_fold hsep (Glob.translation_wholeSegment hS hwild dot) hsegments
  · rw [fold_eq_self fun s hs hkind => hstars ⟨s, hs, hkind⟩]
    exact hsegments

/-- The regex of the segments of a pattern is a translation. -/
theorem translation_segments (hS : Glob.Admits S) (hsep : S (.literal (.escaped '/'))) (dot : Bool)
    {input : List Char} (hg : (Glob.read (body input)).WrittenIn S '/')
    (hL : L ∨ '.' ∉ body input ∧ (Glob.read (body input)).NegationFree) :
    Translation S L (joined (Segment.fold (.wholeSegment dot) (plainSegments dot input))) :=
  translation_joined hsep (translation_folded hS hsep dot hg hL)

theorem translation_leading (hS : Glob.Admits S) (hsep : S (.literal (.escaped '/')))
    (input : List Char) : Translation S L (leading input) := by
  have hdot : Translation S L (.char '.' (.separator .done)) :=
    .single (hS.char '.' (by decide) (by decide)) (.single hsep .done)
  unfold leading
  split
  · exact @Translation.group _ _ _ [] _ _ (List.forall_mem_singleton.mpr hdot) .done
  · exact .done

/-- The regex of a pattern is a translation. -/
theorem translation_middle (hS : Glob.Admits S) (hsep : S (.literal (.escaped '/'))) (dot : Bool)
    {input : List Char} (hg : (Glob.read (body input)).WrittenIn S '/') :
    Translation S True (middle dot input) :=
  (translation_leading hS hsep input).append (translation_segments hS hsep dot hg (.inl trivial))

theorem spelled_leading (input : List Char) : Translation Single.IsSpelled True (leading input) :=
  translation_leading Glob.admits_isSpelled rfl input

/-- The regex of the segments of every pattern is well spelled. -/
theorem spelled_segments (dot : Bool) (input : List Char) :
    Translation Single.IsSpelled True
      (joined (Segment.fold (.wholeSegment dot) (plainSegments dot input))) :=
  translation_segments Glob.admits_isSpelled rfl dot
    (Glob.writtenIn_isSpelled (Glob.filled_read (body input)) '/') (.inl trivial)

/-- **The regex of every pattern is well spelled.** -/
theorem spelled_middle (dot : Bool) (input : List Char) :
    Translation Single.IsSpelled True (middle dot input) :=
  (spelled_leading input).append (spelled_segments dot input)

end Segmentation

theorem mem_of_mem_body {pattern : List Char} {c : Char}
    (h : c ∈ Segmentation.body pattern) : c ∈ pattern := by
  unfold Segmentation.body at h
  cases hdir : currentDirectory? pattern with
  | none =>
    rw [hdir] at h
    exact h
  | some rest =>
    rw [hdir] at h
    rw [currentDirectory?_eq_some.mp hdir]
    exact List.mem_cons_of_mem _ (List.mem_cons_of_mem _ h)

/-! ## 5. Compiled regexes -/

namespace Regex

/-- A regex as it is matched under flags: where case is ignored, its choices are marked. -/
def compared (flags : Flags) (r : Regex) : Regex := if flags.ignoreCase then r.markInside else r

/-- A text as it is matched under flags. -/
def Flags.subject (flags : Flags) (text : List Char) : Subject :=
  ⟨text, flags.caseRule, flags.dotAll, flags.multiline⟩

theorem compared_append (flags : Flags) (r s : Regex) :
    (r ++ s).compared flags = r.compared flags ++ s.compared flags := by
  unfold compared
  split
  · exact Translation.markInside_append r s
  · rfl

theorem barFree_markInside {r : Regex} (hr : r.BarFree) : r.markInside.BarFree := by
  induction r with
  | done => trivial
  | single s q rest ih => exact ih hr
  | anchor a rest ih => exact ih hr
  | group k b q rest _ ih => exact ih hr
  | bar rest => exact absurd hr id

theorem barFree_compared (flags : Flags) {r : Regex} (hr : r.BarFree) :
    (r.compared flags).BarFree := by
  unfold compared
  split
  · exact barFree_markInside hr
  · exact hr

/-- A translation stays one as it is matched under flags. -/
theorem Translation.compared {S : Single → Prop} {L : Prop} {r : Regex}
    (hS : ∀ s, S s → S s.marked) (h : Translation S L r) (flags : Flags) :
    Translation S L (r.compared flags) := by
  unfold Regex.compared
  split
  · exact markInside_translation hS h
  · exact h

/-- **A compiled regex between the ends of a text** is found in a candidate exactly if it spans all
    of it. -/
theorem isFoundIn_compile {r : Regex} (hr : Translation Single.IsSpelled True r) {flags : Flags}
    {c : CompiledRegex}
    (h : CompiledRegex.compile (anchor .start (r ++ anchor .stop done)).text flags = .ok c) :
    c.flags = flags ∧ ∀ x, c.isFoundIn x = true ↔
      (r.compared flags).Spans (flags.subject x) x [] := by
  have hspelled : (anchor .start (r ++ anchor .stop done)).IsSpelled :=
    hr.isSpelled.append trivial
  obtain ⟨rfl, -, -⟩ := compile_text hspelled h
  refine ⟨rfl, fun x => ?_⟩
  have hbar : (anchor .start (r ++ anchor .stop done)).BarFree := hr.barFree.append barFree_done
  have hregex : (if flags.ignoreCase then (anchor .start (r ++ anchor .stop done)).markChoices
      else anchor .start (r ++ anchor .stop done)) =
        anchor .start (r.compared flags ++ anchor .stop done) := by
    unfold compared
    split
    · rw [Translation.markChoices_of_barFree (barFree_markInside hbar), markInside,
        Translation.markInside_append]
      rfl
    · rfl
  simp only [CompiledRegex.isFoundIn, hregex]
  exact isFound_anchored (barFree_compared flags hr.barFree)

end Regex

/-- The regex of a compiled pattern is that of its segments between the ends of a text. -/
theorem CompiledGlob.compile_ofPattern {pattern : List Char} {options : Option MatchOptions}
    {negated : Option Bool} {serial : Nat} {g : CompiledGlob}
    (h : CompiledGlob.ofPattern pattern options negated serial = .ok g) :
    ∃ flags compiled, MatchOptions.regexFlags options = .ok flags ∧
      CompiledRegex.compile (Regex.anchor .start
        (Segmentation.middle (MatchOptions.matchesDot options) pattern ++
          .anchor .stop .done)).text flags = .ok compiled ∧ compiled.search = g.regex := by
  unfold ofPattern at h
  simp only at h
  split at h
  · cases h
  · rename_i flags hflags
    split at h
    · cases h
    · rename_i c hcompile
      cases h
      rw [Segmentation.source, Segmentation.regex_ofText] at hcompile
      exact ⟨flags, c, hflags, hcompile, rfl⟩

/-- **A compiled pattern is found in a candidate** exactly if what stands between the ends of the
    text in its regex spans all of it. -/
theorem CompiledGlob.isFoundIn_ofPattern {pattern : List Char} {options : Option MatchOptions}
    {negated : Option Bool} {serial : Nat} {g : CompiledGlob}
    (h : CompiledGlob.ofPattern pattern options negated serial = .ok g) :
    MatchOptions.regexFlags options = .ok g.regex.flags ∧ ∀ c, g.isFoundIn c = true ↔
      ((Segmentation.middle (MatchOptions.matchesDot options) pattern).compared
        g.regex.flags).Spans (g.regex.flags.subject c) c [] := by
  obtain ⟨flags, compiled, hflags, hcompile, hregex⟩ := compile_ofPattern h
  obtain ⟨rfl, hfound⟩ := Regex.isFoundIn_compile (Segmentation.spelled_middle _ _) hcompile
  unfold isFoundIn
  rw [← hregex]
  exact ⟨hflags, hfound⟩

end Wildcard
