import Wildcard.Proofs.Glob.Alignment
import Wildcard.Proofs.Glob.Denotation

/-!
# Ranges that are in order

A range of a set must not be reversed, and the only ranges that a pattern brings into its regex are
those of its classes.

* `Bracket.inOrder_item`: the item of a class is in order exactly if no hyphen in the class makes a
  reversed range of the two characters next to it (`Bracket.Reverses`).
* `Segmentation.inOrder_middle`: the regex of a pattern is in order exactly if the items of its
  classes are.
-/

namespace Wildcard

/-! ## 1. The ranges of a set -/

namespace Regex

/-- No range among some members is reversed. -/
def Ordered (ms : List Member) : Prop := ∀ lo hi, .range lo hi ∈ ms → lo ≤ hi

theorem ordered_append {ms ms' : List Member} : Ordered (ms ++ ms') ↔ Ordered ms ∧ Ordered ms' := by
  simp only [Ordered, List.mem_append, or_imp, forall_and]

theorem reversedRange?_eq_none_iff (offset : Nat) (items : List Literal) :
    reversedRange? offset items = none ↔ Ordered (Member.ofLiterals items) := by
  fun_induction reversedRange? offset items with
  | case1 offset x y rest stop hlt =>
    refine iff_of_false (by simp) fun h => ?_
    exact absurd (h x.char y.char (by simp [Member.ofLiterals])) (Char.not_le.mpr hlt)
  | case2 offset x y rest stop hle ih =>
    have hrange : Ordered [.range x.char y.char] := by simpa [Ordered] using Char.not_lt.mp hle
    rw [ih, Member.ofLiterals, ← List.singleton_append, ordered_append]
    exact (and_iff_right hrange).symm
  | case3 offset x rest hno ih =>
    have hsingle : Ordered [.single x.char] := by simp [Ordered]
    rw [ih, Member.ofLiterals.eq_2 _ _ hno, ← List.singleton_append, ordered_append]
    exact (and_iff_right hsingle).symm
  | case4 => simp [Member.ofLiterals, Ordered]

end Regex

/-! ## 2. The ranges of a class -/

namespace Bracket

open Regex (Literal Member Single Ordered ordered_append)

/-- Whether some hyphen makes a reversed range of the characters next to it, read from the left. -/
def Reverses : List Token → Prop
  | .named _ :: rest => Reverses rest
  | x :: .hyphen :: y :: rest => (∃ lo ∈ x.char?, ∃ hi ∈ y.char?, hi < lo) ∨ Reverses rest
  | _ :: rest => Reverses rest
  | [] => False

/-- The members that tokens list are in order exactly if no hyphen makes a reversed range: named
    sets are in order. -/
theorem ordered_members {ts : List Token} (hnames : Named ts) :
    Ordered (members ts) ↔ ¬ Reverses ts := by
  fun_induction Reverses ts with
  | case1 name rest ih =>
    obtain ⟨e, he, rfl⟩ := List.mem_map.mp (hnames name List.mem_cons_self)
    have hnamed : ∀ e ∈ namedClasses, Regex.reversedRange? 0 e.2 = none := by decide
    have ih : Ordered (members rest) ↔ ¬ Reverses rest := ih hnames.tail
    rw [members, literalsOf_eq e he, ordered_append, ih]
    exact and_iff_right ((Regex.reversedRange?_eq_none_iff 0 _).mp (hnamed e he))
  | case2 x y rest hx ih =>
    have ih : Ordered (members rest) ↔ ¬ Reverses rest := ih hnames.tail.tail.tail
    rw [members.eq_2 _ _ _ hx, ordered_append, ih, not_or]
    refine and_congr_left' ?_
    cases x.char? with
    | none => simp [Ordered]
    | some lo =>
      cases y.char? with
      | none => simp [Ordered]
      | some hi => simp [Ordered]
  | case3 x rest hx hno ih =>
    have ih : Ordered (members rest) ↔ ¬ Reverses rest := ih hnames.tail
    rw [members.eq_3 _ _ hx hno, ordered_append, ih]
    refine and_iff_right ?_
    cases x.char? with
    | none => simp [Ordered]
    | some c => simp [Ordered]
  | case4 => simp [members, Ordered]

/-- A hyphen directly before a named set makes no range with it. -/
theorem reverses_escapeHyphens (ts : List Token) : Reverses (escapeHyphens ts) ↔ Reverses ts := by
  have single (x : Token) {rest : List Token} (h : ∀ y rest', rest ≠ .hyphen :: y :: rest') :
      Reverses (x :: rest) ↔ Reverses rest := by
    cases x with
    | named name => exact Iff.rfl
    | char c => rw [Reverses.eq_3 _ _ (fun _ h => by cases h) h]
    | hyphen => rw [Reverses.eq_3 _ _ (fun _ h => by cases h) h]
  fun_induction Reverses ts with
  | case1 name rest ih => exact ih
  | case2 x y rest hx ih =>
    have ih : Reverses (escapeHyphens rest) ↔ Reverses rest := ih
    by_cases hy : ∃ name, y = .named name
    · obtain ⟨name, rfl⟩ := hy
      have hescape : escapeHyphens (x :: .hyphen :: .named name :: rest) =
          x :: .char '-' :: .named name :: escapeHyphens rest :=
        escapeHyphens.eq_2 _ _ fun _ _ _ h => by cases h
      have hno : ¬ ∃ lo ∈ x.char?, ∃ hi ∈ (Token.named name).char?, hi < lo := by
        rintro ⟨lo, -, hi, hhi, -⟩
        cases hhi
      rw [hescape, single _ (fun _ _ h => by cases h), single _ (fun _ _ h => by cases h), Reverses,
        ih, or_iff_right hno]
    · obtain ⟨y', hescape, hchar⟩ := escapeHyphens_range x (not_exists.mp hy) rest
      rw [hescape, Reverses.eq_2 _ _ _ hx, hchar, ih]
  | case3 x rest hx hno ih =>
    obtain ⟨x', hescape, -, hno'⟩ := escapeHyphens_single x hno
    rw [hescape, single x' hno']
    exact ih
  | case4 => exact Iff.rfl

/-- **The item of a class is in order** exactly if no hyphen in the class makes a reversed range,
    unless a hyphen in it joins a character to a named set. -/
theorem inOrder_item {body : List Char} (h : joinsName (classTokens body) = false) :
    (item body).InOrder ↔ ¬ Reverses (classTokens body) := by
  have hnames : Named (classTokens body) := mem_tokensFrom 0 _
  have hrender {r : List Literal} (hr : r.head? ≠ some (.bare '-'))
      (hbehind : Ordered (Member.ofLiterals r)) :
      Ordered (Member.ofLiterals (render .first (classTokens body) ++ r)) ↔
        ¬ Reverses (classTokens body) := by
    rw [ofLiterals_render .first h hnames hr, ordered_append, and_iff_left hbehind,
      ordered_members hnames.escapeHyphens, reverses_escapeHyphens]
  rw [item_eq]
  split
  · have hplain := @hrender [] (by simp) (by simp [Member.ofLiterals, Ordered])
    rwa [List.append_nil, ← Regex.reversedRange?_eq_none_iff 0] at hplain
  · have hnegated := @hrender [.bare '/'] (by simp) (by simp [Member.ofLiterals, Ordered])
    rwa [← Regex.reversedRange?_eq_none_iff 0] at hnegated

/-- A reversed range stands between two characters of the class. -/
theorem Reverses.exists_between {ts : List Token} (h : Reverses ts) :
    ∃ before x y after, ts = before ++ x :: .hyphen :: y :: after ∧
      ∃ lo ∈ x.char?, ∃ hi ∈ y.char?, hi < lo := by
  fun_induction Reverses ts with
  | case1 name rest ih =>
    obtain ⟨before, x, y, after, rfl, hreversed⟩ := ih h
    exact ⟨.named name :: before, x, y, after, rfl, hreversed⟩
  | case2 x y rest hx ih =>
    rcases h with hreversed | hrest
    · exact ⟨[], x, y, rest, rfl, hreversed⟩
    · obtain ⟨before, x', y', after, rfl, hreversed⟩ := ih hrest
      exact ⟨x :: .hyphen :: y :: before, x', y', after, rfl, hreversed⟩
  | case3 x rest hx hno ih =>
    obtain ⟨before, x', y', after, rfl, hreversed⟩ := ih h
    exact ⟨x :: before, x', y', after, rfl, hreversed⟩
  | case4 => exact h.elim

end Bracket

/-! ## 3. The classes of a pattern -/

open Regex (Translation Single)

/-- A translation whose sets are in order is in order. -/
theorem Regex.Translation.inOrder {L : Prop} {r : Regex} (h : Translation Single.InOrder L r) :
    r.InOrder :=
  (inOrder_iff_each r).mpr (h.each fun _ => trivial)

namespace Glob

/-- The classes of a pattern, in groups as well, each given by the text between its brackets. -/
def classes : Glob → List (List Char)
  | done => []
  | char _ rest => rest.classes
  | escaped _ rest => rest.classes
  | bracket body rest => body :: rest.classes
  | group _ body rest => body.classes ++ rest.classes

/-- The items of all classes of the pattern are in order. -/
def InOrder (g : Glob) : Prop := ∀ cls ∈ g.classes, (Bracket.item cls).InOrder

theorem inOrder_bracket {body : List Char} {rest : Glob} :
    (bracket body rest).InOrder ↔ (Bracket.item body).InOrder ∧ rest.InOrder :=
  List.forall_mem_cons

theorem inOrder_group {k : Grouping} {body rest : Glob} :
    (group k body rest).InOrder ↔ body.InOrder ∧ rest.InOrder :=
  List.forall_mem_append

/-- Names stand apart in a pattern if they do in each of its classes. -/
theorem namesApart_iff {g : Glob} :
    g.NamesApart ↔ ∀ cls ∈ g.classes, Bracket.HasNamesApart cls := by
  induction g with
  | done => simp [NamesApart, classes]
  | char c rest ih => exact ih
  | escaped c rest ih => exact ih
  | bracket body rest ih =>
    rw [NamesApart, classes, List.forall_mem_cons, ih]
  | group k body rest ihb ihr =>
    rw [NamesApart, classes, List.forall_mem_append, ihb, ihr]

/-- A class has an opening bracket. -/
theorem classes_of_not_mem_text {g : Glob} (h : '[' ∉ g.text) : g.classes = [] := by
  induction g with
  | done => rfl
  | char c rest ih => exact ih (mt (List.mem_cons_of_mem c) h)
  | escaped c rest ih =>
    exact ih (mt (fun hmem => List.mem_cons_of_mem _ (List.mem_cons_of_mem c hmem)) h)
  | bracket body rest ih => exact absurd List.mem_cons_self h
  | group k body rest ihb ihr =>
    simp only [text, List.mem_cons, List.mem_append, not_or] at h
    rw [classes, ihb h.1.2, ihr h.2.2, List.append_nil]

/-- A range holds no class. -/
theorem classes_of_expand? {g : Glob} {values : List (List Char)}
    (h : Range.expand? g.text = some values) : g.classes = [] :=
  classes_of_not_mem_text fun hmem =>
    absurd (Range.isRangeChar_of_expand? h '[' hmem) (by unfold Range.IsRangeChar; decide)

theorem admits_inOrder : Admits Single.InOrder where
  char _ _ _ := trivial

/-- A pattern is written in a class of items that holds those of its classes, wildcards and
    backslashes, and separators if the pattern has any. -/
theorem writtenIn_of_classes {S : Single → Prop} {g : Glob}
    (h : ∀ cls ∈ g.classes, S (Bracket.item cls)) (hwild : S .notSeparator)
    (hback : S (.literal (.quote '\\')))
    (hsep : '/' ∈ g.text → S (.literal (.escaped '/')) ∧ S (.literal (.quote '/'))) (d : Char) :
    g.WrittenIn S d := by
  induction g generalizing d with
  | done => trivial
  | char c rest ih =>
    have hrest := ih h (fun hmem => hsep (List.mem_cons_of_mem c hmem)) d
    refine ⟨fun hc => .inr ?_, fun _ => hback, fun _ => hwild, hrest⟩
    rw [hc] at hsep
    exact (hsep List.mem_cons_self).1
  | escaped c rest ih =>
    have hrest := ih h (fun hmem => hsep (by simp [text, hmem])) d
    refine ⟨fun hc => ?_, hrest⟩
    rcases hc with rfl | rfl
    · exact (hsep (by simp [text])).2
    · exact hback
  | bracket body rest ih =>
    obtain ⟨hbody, hrest⟩ := List.forall_mem_cons.mp h
    exact ⟨hbody, ih hrest (fun hmem => hsep (by simp [text, hmem])) d⟩
  | group k body rest ihb ihr =>
    obtain ⟨hbody, hrest⟩ := List.forall_mem_append.mp h
    have hbody := ihb hbody fun hmem => hsep (by simp [text, hmem])
    have hrest := ihr hrest (fun hmem => hsep (by simp [text, hmem])) d
    cases k with
    | braces => exact ⟨fun _ => hback, hbody ',', hrest⟩
    | parens => exact ⟨hbody '|', hrest⟩

theorem InOrder.writtenIn {g : Glob} (h : g.InOrder) (d : Char) :
    g.WrittenIn Single.InOrder d :=
  writtenIn_of_classes h rfl trivial (fun _ => ⟨trivial, trivial⟩) d

/-! ## 4. The parts of a pattern -/

theorem inOrder_alternatives {first : Regex} {others : List Regex} :
    (Regex.alternatives first others).InOrder ↔ ∀ x ∈ first :: others, x.InOrder := by
  induction others generalizing first with
  | nil => rw [Regex.alternatives, List.forall_mem_singleton]
  | cons second others ih =>
    rw [Regex.alternatives, Regex.inOrder_append, List.forall_mem_cons]
    exact and_congr_right fun _ => ih

theorem inOrder_join {ps : Part × List Part} :
    (Part.join ps).InOrder ↔ ∀ p ∈ ps.1 :: ps.2, p.regex.InOrder := by
  rw [Part.join, inOrder_alternatives, List.forall_mem_cons, List.forall_mem_cons,
    List.forall_mem_map]

theorem inOrder_of_bare {c : Char} {rest : Regex} (h : (bare c rest).InOrder) : rest.InOrder := by
  unfold bare at h
  split at h <;> exact h.2

theorem inOrder_of_marked {mark : Char} {body : Regex} {rest : Part}
    (h : (marked mark body rest).InOrder) : body.InOrder ∧ rest.regex.InOrder := by
  unfold marked at h
  split at h
  · exact h
  · exact h
  · exact h
  · exact h
  · exact ⟨h.1.1.1, h.2⟩

theorem inOrder_of_place {d c : Char} {afterStar : Bool} {ps : Part × List Part}
    (h : ∀ p ∈ (place d afterStar c ps).1 :: (place d afterStar c ps).2, p.regex.InOrder) :
    ∀ p ∈ ps.1 :: ps.2, p.regex.InOrder := by
  rw [place_eq] at h
  split at h
  · exact (List.forall_mem_cons.mp h).2
  · split at h
    · obtain ⟨hfirst, hothers⟩ := List.forall_mem_cons.mp h
      exact List.forall_mem_cons.mpr ⟨hfirst, hothers⟩
    · obtain ⟨hfirst, hothers⟩ := List.forall_mem_cons.mp h
      exact List.forall_mem_cons.mpr ⟨inOrder_of_bare hfirst, hothers⟩

/-- **The regexes of the parts of a pattern are in order** only if its classes are. -/
theorem inOrder_of_parts (d : Char) (afterStar : Bool) (g : Glob)
    (h : ∀ p ∈ (parts d afterStar g).1 :: (parts d afterStar g).2, p.regex.InOrder) :
    g.InOrder := by
  induction d, afterStar, g using parts.induct with
  | case1 d afterStar => exact List.forall_mem_nil _
  | case2 d afterStar c body rest hmark _ _ _ ihb ihr =>
    rw [parts, if_pos hmark] at h
    obtain ⟨hfirst, hothers⟩ := List.forall_mem_cons.mp h
    obtain ⟨hbody, hrest⟩ := inOrder_of_marked hfirst
    exact (@inOrder_group .parens body rest).mpr
      ⟨ihb (inOrder_join.mp hbody), ihr (List.forall_mem_cons.mpr ⟨hrest, hothers⟩)⟩
  | case3 d afterStar c body rest hmark ih =>
    rw [parts, if_neg hmark] at h
    exact ih (inOrder_of_place h)
  | case4 d afterStar c rest hno ih =>
    rw [parts.eq_3 _ _ _ _ hno] at h
    exact ih (inOrder_of_place h)
  | case5 d afterStar c rest _ _ _ ih =>
    rw [parts] at h
    obtain ⟨hfirst, hothers⟩ := List.forall_mem_cons.mp h
    exact ih (List.forall_mem_cons.mpr ⟨hfirst.2, hothers⟩)
  | case6 d afterStar body rest _ _ _ ih =>
    rw [parts] at h
    obtain ⟨hfirst, hothers⟩ := List.forall_mem_cons.mp h
    exact inOrder_bracket.mpr
      ⟨hfirst.1, ih (List.forall_mem_cons.mpr ⟨hfirst.2, hothers⟩)⟩
  | case7 d afterStar body rest _ _ _ ihb ihr =>
    rw [parts] at h
    obtain ⟨hfirst, hothers⟩ := List.forall_mem_cons.mp h
    exact inOrder_group.mpr
      ⟨ihb (inOrder_join.mp hfirst.1), ihr (List.forall_mem_cons.mpr ⟨hfirst.2, hothers⟩)⟩
  | case8 d afterStar body rest _ _ _ ihb ihr =>
    rw [parts] at h
    obtain ⟨hfirst, hothers⟩ := List.forall_mem_cons.mp h
    obtain ⟨hfront, hrest⟩ := (Regex.inOrder_append _ _).mp hfirst
    refine inOrder_group.mpr ⟨?_, ihr (List.forall_mem_cons.mpr ⟨hrest, hothers⟩)⟩
    split at hfront
    · exact ihb (inOrder_join.mp hfront.1)
    · rename_i hone
      split at hfront
      · rename_i hrange
        intro cls hcls
        rw [classes_of_expand? hrange] at hcls
        cases hcls
      · refine ihb (List.forall_mem_cons.mpr ⟨?_, ?_⟩)
        · exact ((Regex.inOrder_append _ _).mp hfront.2).1
        · rw [not_not.mp hone]
          exact List.forall_mem_nil _

theorem snd_place {d c : Char} {afterStar : Bool} {ps : Part × List Part} (h : c ≠ d) :
    (place d afterStar c ps).2 = ps.2 := by
  rw [place_eq, if_neg h]
  split <;> rfl

/-- A pattern without bare delimiters is one part. -/
theorem snd_parts {d : Char} (afterStar : Bool) {g : Glob} (h : g.hasBare d = false) :
    (parts d afterStar g).2 = [] := by
  induction d, afterStar, g using parts.induct with
  | case1 d afterStar => rfl
  | case2 d afterStar c body rest hmark _ _ _ _ ih =>
    rw [parts, if_pos hmark]
    exact ih (Bool.or_eq_false_iff.mp h).2
  | case3 d afterStar c body rest hmark ih =>
    obtain ⟨hc, hrest⟩ := Bool.or_eq_false_iff.mp h
    rw [parts, if_neg hmark, snd_place (ne_of_beq_false hc)]
    exact ih hrest
  | case4 d afterStar c rest hno ih =>
    obtain ⟨hc, hrest⟩ := Bool.or_eq_false_iff.mp h
    rw [parts.eq_3 _ _ _ _ hno, snd_place (ne_of_beq_false hc)]
    exact ih hrest
  | case5 d afterStar c rest _ _ _ ih => exact ih h
  | case6 d afterStar body rest _ _ _ ih => exact ih h
  | case7 d afterStar body rest _ _ _ _ ih => exact ih h
  | case8 d afterStar body rest _ _ _ _ ih => exact ih h

/-- The pieces of a pattern hold no bare delimiter, and their classes are those of the pattern. -/
theorem pieces_spec (d : Char) (g : Glob) :
    (∀ p ∈ g.pieces d, p.hasBare d = false) ∧ (g.pieces d).flatMap classes = g.classes := by
  induction g with
  | done => exact ⟨List.forall_mem_singleton.mpr rfl, rfl⟩
  | char c rest ih =>
    obtain ⟨hbare, hclasses⟩ := ih
    simp only [pieces, splitOn]
    split
    · exact ⟨List.forall_mem_cons.mpr ⟨rfl, hbare⟩, hclasses⟩
    · rename_i hc
      obtain ⟨hfirst, hothers⟩ := List.forall_mem_cons.mp hbare
      refine ⟨List.forall_mem_cons.mpr ⟨?_, hothers⟩, hclasses⟩
      rw [hasBare, hfirst, Bool.or_false]
      exact beq_false_of_ne hc
  | escaped c rest ih =>
    obtain ⟨hbare, hclasses⟩ := ih
    obtain ⟨hfirst, hothers⟩ := List.forall_mem_cons.mp hbare
    exact ⟨List.forall_mem_cons.mpr ⟨hfirst, hothers⟩, hclasses⟩
  | bracket body rest ih =>
    obtain ⟨hbare, hclasses⟩ := ih
    obtain ⟨hfirst, hothers⟩ := List.forall_mem_cons.mp hbare
    exact ⟨List.forall_mem_cons.mpr ⟨hfirst, hothers⟩, congrArg (body :: ·) hclasses⟩
  | group k body rest _ ih =>
    obtain ⟨hbare, hclasses⟩ := ih
    obtain ⟨hfirst, hothers⟩ := List.forall_mem_cons.mp hbare
    refine ⟨List.forall_mem_cons.mpr ⟨hfirst, hothers⟩, ?_⟩
    rw [classes, ← hclasses]
    simp [pieces, splitOn, classes]

/-! ## 5. Whole patterns -/

/-- The regex of a segment that is no globstar is in order only if its classes are. -/
theorem inOrder_of_segment {dot : Bool} {g : Glob} (hbare : g.hasBare '/' = false)
    (h : ¬ g.IsGlobstar → (g.segment dot).regex.InOrder) : g.InOrder := by
  by_cases hstars : g.IsGlobstar
  · have hbracket : '[' ∉ g.text := fun hmem =>
      absurd (List.all_eq_true.mp hstars.2 '[' hmem) (by decide)
    intro cls hcls
    rw [classes_of_not_mem_text hbracket] at hcls
    cases hcls
  · have hregex := h hstars
    rw [segment_of_not_isGlobstar dot hstars] at hregex
    refine inOrder_of_parts '/' false g (List.forall_mem_cons.mpr ⟨?_, ?_⟩)
    · exact ((Regex.inOrder_append _ _).mp hregex).2
    · rw [snd_parts false hbare]
      exact List.forall_mem_nil _

end Glob

open Segmentation in
/-- **The regex of a pattern is in order** exactly if the items of its classes are. -/
theorem Segmentation.inOrder_middle (dot : Bool) (pattern : List Char) :
    (middle dot pattern).InOrder ↔ (Glob.read (body pattern)).InOrder := by
  obtain ⟨hbare, hclasses⟩ := Glob.pieces_spec '/' (Glob.read (body pattern))
  constructor
  · intro h
    obtain ⟨-, hjoined⟩ := (Regex.inOrder_append _ _).mp h
    have hsegments := inOrder_joined hjoined
    have hpieces : ∀ p ∈ (Glob.read (body pattern)).pieces '/', p.InOrder := fun p hp =>
      Glob.inOrder_of_segment (hbare p hp) fun hstars =>
        hsegments (p.segment dot) (List.mem_map_of_mem hp)
          fun hkind => hstars ((Glob.kind_segment dot p).mp hkind)
    intro cls hcls
    rw [← hclasses] at hcls
    obtain ⟨p, hp, hcls⟩ := List.mem_flatMap.mp hcls
    exact hpieces p hp cls hcls
  · intro h
    refine (Regex.inOrder_append _ _).mpr ⟨?_, ?_⟩
    · unfold leading
      split
      · exact ⟨⟨trivial, trivial, trivial⟩, trivial⟩
      · trivial
    · exact (translation_segments Glob.admits_inOrder trivial dot (h.writtenIn '/')
        (.inl trivial)).inOrder

end Wildcard
