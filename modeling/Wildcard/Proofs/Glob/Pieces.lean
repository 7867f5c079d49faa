import Wildcard.Proofs.Glob.Negation
import Wildcard.Proofs.Regex.Groups

/-!
# Parts in context

The regex of a part is made from right to left, and most of it does not hang on what stands around
the part.

* `parts_pieces`: the parts of a pattern are those of its pieces, each taken alone.
* `regex_parts_chars`, `regex_parts_append_chars`: characters that stand for themselves are written
  as themselves in front of a pattern, and behind it unless a negated group looks past its end.
* `steady_parts`, `insideUnder_pieces`: marking changes nothing unless alternatives are a set in
  effect and hold an upper-case letter beyond the basic plane, so a group spans what one of its
  alternatives spans.
* `CompiledGlob.isFoundIn_iff_segment`: a compiled pattern of one segment accepts what the regex of
  the segment spans under its flags.
-/

namespace Wildcard

namespace Glob

open Regex (Single)

variable {d : Char} {w : List Char} {g : Glob}

/-! ## 1. Characters that stand for themselves -/

/-- Wherever it stands bare in a pattern, the character means itself. -/
def StandsForItself (c : Char) : Prop :=
  c ∉ ['\\', '/', '*', '?', '+', '@', '!', '[', ']', '{', '}', '(', ')', ',', '|', '.']

instance (c : Char) : Decidable (StandsForItself c) :=
  inferInstanceAs (Decidable (c ∉ ['\\', '/', '*', '?', '+', '@', '!', '[', ']', '{', '}', '(', ')',
    ',', '|', '.']))

/-- Letters and digits stand for themselves. -/
theorem standsForItself_of_isAlphanum {c : Char} (h : c.isAlphanum = true) : StandsForItself c := by
  intro hmem
  have hmarks : ['\\', '/', '*', '?', '+', '@', '!', '[', ']', '{', '}', '(', ')', ',', '|', '.'].all
      (!·.isAlphanum) = true := rfl
  have hno := List.all_eq_true.mp hmarks c hmem
  rw [h] at hno
  cases hno

theorem StandsForItself.isGroupMark {c : Char} (h : StandsForItself c) : isGroupMark c = false := by
  have hmarks : ['?', '*', '+', '@', '!'].all (¬ StandsForItself ·) = true := by decide
  exact decide_eq_false fun hmem => of_decide_eq_true (List.all_eq_true.mp hmarks c hmem) h

theorem StandsForItself.ne {c c' : Char} (h : StandsForItself c)
    (hc : ¬ StandsForItself c' := by decide) : c ≠ c' :=
  fun e => hc (e ▸ h)

/-- The pattern of characters that stand bare. -/
def chars (cs : List Char) : Glob := cs.foldr char done

@[simp] theorem chars_nil : chars [] = done := rfl

@[simp] theorem chars_cons (c : Char) (cs : List Char) : chars (c :: cs) = char c (chars cs) := rfl

@[simp] theorem text_chars (cs : List Char) : (chars cs).text = cs := by
  induction cs with
  | nil => rfl
  | cons c cs ih => rw [chars_cons, text, ih]

@[simp] theorem pairs_chars (start : Nat) (cs : List Char) : (chars cs).pairs start = [] := by
  induction cs generalizing start with
  | nil => rfl
  | cons c cs ih => exact ih (start + 1)

/-- Such characters are read as bare characters, and what follows as if it stood alone. -/
theorem read_append_of_standsForItself (hw : ∀ c ∈ w, StandsForItself c) (cs : List Char) :
    read (w ++ cs) = chars w ++ read cs := by
  induction w with
  | nil => rfl
  | cons c w ih =>
    obtain ⟨hc, hw⟩ := List.forall_mem_cons.mp hw
    rw [List.cons_append, read_cons hc.ne hc.ne (opens?_eq_none hc.ne hc.ne), ih hw]
    rfl

theorem read_of_standsForItself (hw : ∀ c ∈ w, StandsForItself c) : read w = chars w := by
  have h := read_append_of_standsForItself hw []
  rwa [List.append_nil, show read [] = done from rfl, append_done] at h

theorem hasBare_chars_append (hw : ∀ c ∈ w, StandsForItself c) (hd : ¬ StandsForItself d) :
    (chars w ++ g).hasBare d = g.hasBare d := by
  induction w with
  | nil => rfl
  | cons c w ih =>
    obtain ⟨hc, hw⟩ := List.forall_mem_cons.mp hw
    rw [chars_cons, char_append, hasBare, ih hw, beq_false_of_ne (hc.ne hd), Bool.false_or]

theorem hasBare_chars (hw : ∀ c ∈ w, StandsForItself c) (hd : ¬ StandsForItself d) :
    (chars w).hasBare d = false := by
  have h := @hasBare_chars_append d w done hw hd
  rwa [append_done] at h

/-- A character that marks no group, whatever follows. -/
theorem parts_unmarked (d : Char) (afterStar : Bool) {c : Char} (hc : isGroupMark c = false)
    (rest : Glob) : parts d afterStar (char c rest) = place d afterStar c (parts d false rest) := by
  have hstar : (c == '*') = false := by
    refine beq_false_of_ne fun e => ?_
    rw [e] at hc
    cases hc
  by_cases hopens : rest.OpensGroup
  · obtain ⟨body, rest', rfl⟩ := opensGroup_iff.mp hopens
    rw [parts, if_neg (by simp [hc])]
  · rw [parts_char d afterStar c hopens, hstar]

/-- A character that stands for itself is written so, whatever follows. -/
theorem regex_parts_char (hd : ¬ StandsForItself d) (afterStar : Bool) {c : Char}
    (hc : StandsForItself c) (rest : Glob) :
    (parts d afterStar (char c rest)).1.regex = .char c (parts d false rest).1.regex := by
  have hbare (r : Regex) : bare c r = .char c r := by
    unfold bare
    split
    · exact absurd rfl hc.ne
    · exact absurd rfl hc.ne
    · exact absurd rfl hc.ne
    · rfl
  rw [parts_unmarked d afterStar hc.isGroupMark, place_eq, if_neg (hc.ne hd),
    beq_false_of_ne hc.ne, Bool.and_false, if_neg Bool.false_ne_true]
  exact hbare _

/-- **Characters that stand for themselves in front of a pattern** are written as themselves. -/
theorem regex_parts_chars (hd : ¬ StandsForItself d) (afterStar : Bool)
    (hw : ∀ c ∈ w, StandsForItself c) (g : Glob) :
    (parts d afterStar (chars w ++ g)).1.regex =
      Regex.chars w ++ (parts d (afterStar && w.isEmpty) g).1.regex := by
  induction w generalizing afterStar with
  | nil => rw [List.isEmpty_nil, Bool.and_true]; rfl
  | cons c w ih =>
    obtain ⟨hc, hw⟩ := List.forall_mem_cons.mp hw
    rw [chars_cons, char_append, regex_parts_char hd afterStar hc, ih false hw,
      List.isEmpty_cons, Bool.and_false]
    rfl

/-- A character that stands for itself needs no guard. -/
theorem guard_of_standsForItself {c : Char} (hc : StandsForItself c) (rest : Glob) :
    (char c rest).guard = .done := by
  by_cases hopens : rest.OpensGroup
  · obtain ⟨body, rest', rfl⟩ := opensGroup_iff.mp hopens
    rw [guard, hc.isGroupMark]
    exact if_neg Bool.false_ne_true
  · rw [guard.eq_2 c rest fun body rest' e => hopens (opensGroup_iff.mpr ⟨body, rest', e⟩)]
    exact if_neg (not_or.mpr ⟨hc.ne, hc.ne⟩)

/-! ## 2. Pieces -/

/-- Whether a group comes behind a star makes no difference to it. -/
theorem parts_group (d : Char) (afterStar : Bool) (k : Grouping) (body rest : Glob) :
    parts d afterStar (group k body rest) = parts d false (group k body rest) := by
  cases k with
  | braces => rw [parts, parts]
  | parens => rw [parts, parts]

/-- A bare character in front of pieces, given that it marks no group. -/
theorem parts_pieces_place {afterStar : Bool} {c : Char} {rest : Glob} (hd : d ≠ '*')
    (hplain : ∀ rest' : Glob, (rest'.OpensGroup ↔ rest.OpensGroup) →
      parts d afterStar (char c rest') = place d afterStar c (parts d (c == '*') rest'))
    (ih : parts d (c == '*') rest = ((parts d (c == '*') (rest.splitOn d).1).1,
      (rest.splitOn d).2.map fun p => (parts d false p).1)) :
    parts d afterStar (char c rest) = ((parts d afterStar ((char c rest).splitOn d).1).1,
      ((char c rest).splitOn d).2.map fun p => (parts d false p).1) := by
  have hsplit : (char c rest).splitOn d =
      if c = d then (done, (rest.splitOn d).1 :: (rest.splitOn d).2)
      else (char c (rest.splitOn d).1, (rest.splitOn d).2) := rfl
  rw [hplain rest Iff.rfl, ih, hsplit, place_eq]
  by_cases hc : c = d
  · rw [if_pos hc, if_pos hc, hc, beq_false_of_ne hd]
    rfl
  · rw [if_neg hc, if_neg hc, hplain _ (opensGroup_splitOn d rest), place_eq, if_neg hc]
    split <;> rfl

/-- **The parts of a pattern are those of its pieces**, each taken alone. -/
theorem parts_pieces (hd : isGroupMark d = false) (afterStar : Bool) (g : Glob) :
    parts d afterStar g = ((parts d afterStar (g.splitOn d).1).1,
      (g.splitOn d).2.map fun p => (parts d false p).1) := by
  have hstar : d ≠ '*' := by
    intro e
    rw [e] at hd
    cases hd
  induction d, afterStar, g using parts.induct with
  | case1 d afterStar => rfl
  | case2 d afterStar c body rest hmark _ _ _ _ ih =>
    have hc : c ≠ d := by
      intro e
      rw [e, hd] at hmark
      cases hmark
    have hsplit : (char c (group .parens body rest)).splitOn d =
        (char c (group .parens body (rest.splitOn d).1), (rest.splitOn d).2) := if_neg hc
    rw [hsplit, parts, if_pos hmark, parts, if_pos hmark, ih hd hstar]
  | case3 d afterStar c body rest hmark ih =>
    refine parts_pieces_place hstar (fun rest' hopens => ?_) ?_
    · obtain ⟨body', rest', rfl⟩ := opensGroup_iff.mp (hopens.mpr trivial)
      rw [parts, if_neg hmark, parts_group d (c == '*')]
    · rw [parts_group d (c == '*'), ih hd hstar]
      exact congrArg (fun p => (p, _)) (congrArg Prod.fst (parts_group d (c == '*') _ _ _).symm)
  | case4 d afterStar c rest hno ih =>
    refine parts_pieces_place hstar (fun rest' hopens => ?_) (ih hd hstar)
    refine parts_char d afterStar c fun h => ?_
    obtain ⟨body, rest'', rfl⟩ := opensGroup_iff.mp (hopens.mp h)
    exact hno body rest'' rfl
  | case5 d afterStar c rest _ _ _ ih => rw [splitOn, parts, parts, ih hd hstar]
  | case6 d afterStar body rest _ _ _ ih => rw [splitOn, parts, parts, ih hd hstar]
  | case7 d afterStar body rest _ _ _ _ ih => rw [splitOn, parts, parts, ih hd hstar]
  | case8 d afterStar body rest _ _ _ _ ih => rw [splitOn, parts, parts, ih hd hstar]

/-- Which delimiter is looked for makes no difference to a pattern without either. -/
theorem parts_delimiter {d' : Char} (afterStar : Bool) {g : Glob} (h : g.hasBare d = false)
    (h' : g.hasBare d' = false) : parts d afterStar g = parts d' afterStar g := by
  have hplace {afterStar : Bool} {c : Char} (hc : (c == d) = false) (hc' : (c == d') = false)
      (ps : Part × List Part) : place d afterStar c ps = place d' afterStar c ps := by
    rw [place_eq, place_eq, if_neg (ne_of_beq_false hc), if_neg (ne_of_beq_false hc')]
  induction d, afterStar, g using parts.induct with
  | case1 d afterStar => rfl
  | case2 d afterStar c body rest hmark _ _ _ _ ih =>
    rw [parts, if_pos hmark, parts, if_pos hmark,
      ih (Bool.or_eq_false_iff.mp h).2 (Bool.or_eq_false_iff.mp h').2 hplace]
  | case3 d afterStar c body rest hmark ih =>
    obtain ⟨hc, hrest⟩ := Bool.or_eq_false_iff.mp h
    obtain ⟨hc', hrest'⟩ := Bool.or_eq_false_iff.mp h'
    rw [parts, if_neg hmark, parts, if_neg hmark, ih hrest hrest' hplace, hplace hc hc']
  | case4 d afterStar c rest hno ih =>
    obtain ⟨hc, hrest⟩ := Bool.or_eq_false_iff.mp h
    obtain ⟨hc', hrest'⟩ := Bool.or_eq_false_iff.mp h'
    rw [parts.eq_3 _ _ _ _ hno, parts.eq_3 _ _ _ _ hno, ih hrest hrest' hplace, hplace hc hc']
  | case5 d afterStar c rest _ _ _ ih => rw [parts, parts, ih h h' hplace]
  | case6 d afterStar body rest _ _ _ ih => rw [parts, parts, ih h h' hplace]
  | case7 d afterStar body rest _ _ _ _ ih => rw [parts, parts, ih h h' hplace]
  | case8 d afterStar body rest _ _ _ _ ih => rw [parts, parts, ih h h' hplace]

/-! ## 3. Negated groups that look past the end -/

/-- A negated group at the pattern's own level has no `!(` behind it in the text, so that it looks
    at all that follows. -/
def LooksPast : Glob → Prop
  | done => False
  | char c (group .parens _ rest) => c = '!' ∧ ¬ ['!', '('] <:+: rest.text ∨ rest.LooksPast
  | char _ rest => rest.LooksPast
  | escaped _ rest => rest.LooksPast
  | bracket _ rest => rest.LooksPast
  | group _ _ rest => rest.LooksPast

theorem looksPast_char {c : Char} {rest : Glob} (h : ¬ rest.OpensGroup) :
    (char c rest).LooksPast ↔ rest.LooksPast := by
  rw [LooksPast.eq_3 c rest fun body rest' e => h (opensGroup_iff.mpr ⟨body, rest', e⟩)]

instance decidableLooksPast : (g : Glob) → Decidable g.LooksPast
  | done => isFalse id
  | char c (group .parens _ rest) =>
    have := decidableLooksPast rest
    inferInstanceAs (Decidable (c = '!' ∧ ¬ ['!', '('] <:+: rest.text ∨ rest.LooksPast))
  | char _ done => isFalse id
  | char _ (char c rest) => decidableLooksPast (char c rest)
  | char _ (escaped c rest) => decidableLooksPast (escaped c rest)
  | char _ (bracket body rest) => decidableLooksPast (bracket body rest)
  | char _ (group .braces body rest) => decidableLooksPast (group .braces body rest)
  | escaped _ rest => decidableLooksPast rest
  | bracket _ rest => decidableLooksPast rest
  | group _ _ rest => decidableLooksPast rest

theorem hasBare_append (d : Char) (g h : Glob) :
    (g ++ h).hasBare d = (g.hasBare d || h.hasBare d) := by
  induction g with
  | done => rfl
  | char c rest ih => rw [char_append, hasBare, ih, hasBare, Bool.or_assoc]
  | escaped c rest ih => exact ih
  | bracket body rest ih => exact ih
  | group k body rest _ ih => exact ih

/-- A group is no delimiter, and neither is its mark. -/
theorem hasBare_marked {c : Char} {body rest : Glob} (hc : isGroupMark c = true)
    (h : rest.hasBare '/' = false) : (char c (group .parens body rest)).hasBare '/' = false := by
  have hslash : c ≠ '/' := by
    rintro rfl
    cases hc
  rw [hasBare, hasBare, h, beq_false_of_ne hslash]
  rfl

theorem classes_append (g h : Glob) : (g ++ h).classes = g.classes ++ h.classes := by
  induction g with
  | done => rfl
  | char c rest ih => exact ih
  | escaped c rest ih => exact ih
  | bracket body rest ih => exact congrArg (body :: ·) ih
  | group k body rest _ ih =>
    rw [group_append, classes, ih, classes, List.append_assoc]

@[simp] theorem classes_chars (cs : List Char) : (chars cs).classes = [] := by
  induction cs with
  | nil => rfl
  | cons c cs ih => exact ih

/-- Behind a text such characters do not complete the opener of a negated group. -/
theorem negation_infix_append (hw : ∀ c ∈ w, StandsForItself c) (cs : List Char) :
    ['!', '('] <:+: cs ++ w ↔ ['!', '('] <:+: cs := by
  have hno : '(' ∉ w := fun hmem => absurd (hw '(' hmem) (by decide)
  refine ⟨fun h => ?_, fun h => h.trans (List.prefix_append cs w).isInfix⟩
  rcases List.infix_append_iff.mp h with h | h | ⟨l, l', heq, hback, hfront⟩
  · exact h
  · exact absurd (h.subset (by simp)) hno
  · rcases List.eq_nil_or_concat l' with rfl | ⟨front, c, rfl⟩
    · rw [List.append_nil] at heq
      exact heq ▸ hback.isInfix
    · -- the last character of the opener would stand behind
      have hlast : c = '(' := by
        have h := congrArg List.getLast? heq
        rw [List.concat_eq_append, ← List.append_assoc, List.getLast?_concat] at h
        exact (Option.some.inj h).symm
      refine absurd (hfront.subset ?_) hno
      simp [hlast]

/-- How often a group is taken by its mark, if it is not negated. -/
def quantifierOf : Char → Regex.Quantifier
  | '?' => .optional
  | '*' => .star
  | '+' => .plus
  | _ => .once

/-- A marked group that is not negated is taken as often as its mark says. -/
theorem marked_of_ne {c : Char} (hc : isGroupMark c = true) (hneg : c ≠ '!') (body : Regex)
    (p : Part) : marked c body p = .group .plain body (quantifierOf c) p.regex := by
  have hmem := of_decide_eq_true hc
  simp only [List.mem_cons, List.not_mem_nil, or_false] at hmem
  rcases hmem with rfl | rfl | rfl | rfl | rfl
  · rfl
  · rfl
  · rfl
  · rfl
  · exact absurd rfl hneg

/-- A marked group in front of a part that is continued. -/
theorem marked_append {c : Char} (hc : isGroupMark c = true) {body r : Regex} {p p' : Part}
    (hregex : p'.regex = p.regex ++ r)
    (hneg : c = '!' → p'.holdsNegation = p.holdsNegation ∧ (p.holdsNegation = true ∨ r = .done)) :
    marked c body p' = marked c body p ++ r := by
  by_cases hmark : c = '!'
  · obtain ⟨hsame, hend⟩ := hneg hmark
    rw [hmark, marked_negated, marked_negated, hsame, hregex]
    rcases hend with hholds | rfl
    · rw [hholds]
      rfl
    · rw [Regex.append_done, Regex.append_done]
  · rw [marked_of_ne hc hmark, marked_of_ne hc hmark, hregex]
    rfl

theorem regex_place_append {afterStar : Bool} {c : Char} {ps ps' : Part × List Part} {r : Regex}
    (hc : c ≠ d) (h : ps'.1.regex = ps.1.regex ++ r) :
    (place d afterStar c ps').1.regex = (place d afterStar c ps).1.regex ++ r := by
  have hbare : bare c (ps.1.regex ++ r) = bare c ps.1.regex ++ r := by
    unfold bare
    split <;> rfl
  rw [place_eq, place_eq, if_neg hc, if_neg hc]
  split
  · exact h
  · exact (congrArg (bare c) h).trans hbare

theorem opensGroup_append_chars : (g ++ chars w).OpensGroup ↔ g.OpensGroup := by
  cases g with
  | done => cases w <;> exact Iff.rfl
  | char c rest => exact Iff.rfl
  | escaped c rest => exact Iff.rfl
  | bracket body rest => exact Iff.rfl
  | group k body rest => cases k <;> exact Iff.rfl

/-- Characters that stand for themselves are written as themselves. -/
theorem regex_parts_of_standsForItself (hw : ∀ c ∈ w, StandsForItself c)
    (hd : ¬ StandsForItself d) (afterStar : Bool) :
    (parts d afterStar (chars w)).1.regex = Regex.chars w := by
  have h := regex_parts_chars hd afterStar hw done
  rw [append_done] at h
  exact h.trans (Regex.append_done _)

/-- **Characters that stand for themselves behind a pattern** are written as themselves behind it,
    unless a negated group looks past the end of the pattern. -/
theorem regex_parts_append_chars (hw : ∀ c ∈ w, StandsForItself c) (hd : ¬ StandsForItself d)
    (afterStar : Bool) {g : Glob} (hbare : g.hasBare d = false) (h : w = [] ∨ ¬ g.LooksPast) :
    (parts d afterStar (g ++ chars w)).1.regex =
      (parts d afterStar g).1.regex ++ Regex.chars w := by
  induction d, afterStar, g using parts.induct with
  | case1 d afterStar => exact regex_parts_of_standsForItself hw hd afterStar
  | case2 d afterStar c body rest hmark _ _ _ _ ih =>
    have hrest : rest.hasBare d = false := (Bool.or_eq_false_iff.mp hbare).2
    have hpast : w = [] ∨ ¬ rest.LooksPast := h.imp_right fun hno hlooks => hno (.inr hlooks)
    have hbehind : (rest ++ chars w).hasBare d = false := by
      rw [hasBare_append, hrest, hasBare_chars hw hd]
      rfl
    have hsame : (parts d false (rest ++ chars w)).1.holdsNegation =
        (parts d false rest).1.holdsNegation := by
      rw [Bool.eq_iff_iff, Part.holdsNegation, Part.holdsNegation, occursIn_iff, occursIn_iff,
        text_fst_parts false hrest, text_fst_parts false hbehind, text_append, text_chars,
        negation_infix_append hw]
    rw [char_append, group_append, parts, if_pos hmark, parts, if_pos hmark]
    refine marked_append (Bool.and_eq_true_iff.mp hmark).1 (ih hd hrest hpast) fun hc => ⟨hsame, ?_⟩
    rcases h with rfl | hno
    · exact .inr rfl
    · refine .inl ?_
      rw [Part.holdsNegation, occursIn_iff, text_fst_parts false hrest]
      exact not_not.mp fun hnone => hno (.inl ⟨hc, hnone⟩)
  | case3 d afterStar c body rest hmark ih =>
    obtain ⟨hc, hrest⟩ := Bool.or_eq_false_iff.mp hbare
    rw [char_append, group_append, parts, if_neg hmark, parts, if_neg hmark]
    exact regex_place_append (ne_of_beq_false hc)
      (ih hd hrest (h.imp_right fun hno hlooks => hno (.inr hlooks)))
  | case4 d afterStar c rest hno ih =>
    obtain ⟨hc, hrest⟩ := Bool.or_eq_false_iff.mp hbare
    have hopens : ¬ rest.OpensGroup := by
      intro hopens
      obtain ⟨body, rest', rfl⟩ := opensGroup_iff.mp hopens
      exact hno body rest' rfl
    rw [char_append, parts_char d afterStar c hopens,
      parts_char d afterStar c (mt opensGroup_append_chars.mp hopens)]
    rw [looksPast_char hopens] at h
    exact regex_place_append (ne_of_beq_false hc) (ih hd hrest h)
  | case5 d afterStar c rest _ _ _ ih =>
    rw [escaped_append, parts, parts]
    exact congrArg (Regex.char c) (ih hd hbare h)
  | case6 d afterStar body rest _ _ _ ih =>
    rw [bracket_append, parts, parts]
    exact congrArg (Regex.single (Bracket.item body) .once) (ih hd hbare h)
  | case7 d afterStar body rest _ _ _ _ ih =>
    rw [group_append, parts, parts]
    exact congrArg (Regex.grouped (Part.join (parts '|' false body)) .once ++ ·) (ih hd hbare h)
  | case8 d afterStar body rest _ _ _ _ ih =>
    rw [group_append, parts, parts]
    exact (congrArg (_ ++ ·) (ih hd hbare h)).trans (Regex.append_assoc _ _ _).symm

/-! ## 4. Characters that are compared alike in sets -/

section Steady

open Regex (lastBasic EvenUnder evenUnder_of_basic)

variable {rule : Regex.CaseRule}

theorem steady_quote {c : Char} (h : EvenUnder rule c) :
    (Single.literal (.quote c)).Steady rule :=
  Single.steady_literal (by rwa [Regex.Literal.char_quote])

theorem steady_chars {cs : List Char} (h : ∀ c ∈ cs, EvenUnder rule c) :
    (Regex.chars cs).Each (Single.Steady rule) := by
  induction cs with
  | nil => trivial
  | cons c cs ih =>
    obtain ⟨hc, hcs⟩ := List.forall_mem_cons.mp h
    exact ⟨steady_quote hc, ih hcs⟩

/-- The members of a class are compared so if what the class is written with is. -/
theorem even_itemsFrom (n : Nat) (p : Bracket.Position) (cs : List Char)
    (h : ∀ c ∈ cs, EvenUnder rule c) : ∀ l ∈ Bracket.itemsFrom n p cs, EvenUnder rule l.char := by
  have hnames : ∀ e ∈ Bracket.namedClasses, ∀ l ∈ e.2, l.char ≤ lastBasic := by decide
  fun_induction Bracket.itemsFrom n p cs with
  | case1 => exact List.forall_mem_nil _
  | case2 _ _ _ _ ih => exact ih (List.forall_mem_cons.mp h).2
  | case3 _ c rest ih =>
    obtain ⟨hc, hrest⟩ := List.forall_mem_cons.mp (List.forall_mem_cons.mp h).2
    exact List.forall_mem_cons.mpr ⟨by rwa [Regex.Literal.char_member], ih hrest⟩
  | case4 p c rest _ literals n hn ih =>
    refine List.forall_mem_append.mpr ⟨?_, ih (List.forall_mem_cons.mp h).2⟩
    split at hn
    · obtain ⟨e, he, rfl⟩ := Bracket.mem_namedClasses hn
      exact fun l hl => evenUnder_of_basic (hnames e he l hl)
    · cases hn
  | case5 p c rest _ _ ih =>
    obtain ⟨hc, hrest⟩ := List.forall_mem_cons.mp h
    refine List.forall_mem_cons.mpr ⟨?_, ih hrest⟩
    split
    · exact evenUnder_of_basic (by decide)
    · rwa [Regex.Literal.char_member]

theorem steady_item {body : List Char} (h : ∀ c ∈ body, EvenUnder rule c) :
    (Bracket.item body).Steady rule := by
  unfold Bracket.item
  split
  · exact Single.steady_set (even_itemsFrom 0 .first body h)
  · exact fun _ => rfl

/-- The items of some parts are steady. -/
def AreSteady (rule : Regex.CaseRule) (ps : Part × List Part) : Prop :=
  ∀ p ∈ ps.1 :: ps.2, p.regex.Each (Single.Steady rule)

theorem AreSteady.front {ps : Part × List Part} (h : AreSteady rule ps) {p : Part}
    (hp : ps.1.regex.Each (Single.Steady rule) → p.regex.Each (Single.Steady rule)) :
    AreSteady rule (p, ps.2) := by
  obtain ⟨hfirst, hothers⟩ := List.forall_mem_cons.mp h
  exact List.forall_mem_cons.mpr ⟨hp hfirst, hothers⟩

theorem each_alternatives {first : Regex} {others : List Regex}
    (h : ∀ x ∈ first :: others, x.Each (Single.Steady rule)) :
    (Regex.alternatives first others).Each (Single.Steady rule) :=
  Regex.Translation.alternatives_of (fun hr hs => (Regex.each_append _ _).mpr ⟨hr, hs⟩) id h

theorem AreSteady.join {ps : Part × List Part} (h : AreSteady rule ps) :
    (Part.join ps).Each (Single.Steady rule) := by
  obtain ⟨hfirst, hothers⟩ := List.forall_mem_cons.mp h
  exact each_alternatives (List.forall_mem_cons.mpr ⟨hfirst, List.forall_mem_map.mpr hothers⟩)

theorem AreSteady.place {ps : Part × List Part} (h : AreSteady rule ps) {afterStar : Bool}
    {c : Char} (hc : EvenUnder rule c) : AreSteady rule (place d afterStar c ps) := by
  have hbare {r : Regex} (hr : r.Each (Single.Steady rule)) :
      (bare c r).Each (Single.Steady rule) := by
    unfold bare
    split
    · exact ⟨fun _ => rfl, hr⟩
    · exact ⟨fun _ => rfl, hr⟩
    · exact ⟨Single.steady_literal (evenUnder_of_basic (by decide)), hr⟩
    · exact ⟨steady_quote hc, hr⟩
  rw [place_eq]
  split
  · exact List.forall_mem_cons.mpr ⟨trivial, h⟩
  · split
    · exact h.front id
    · exact h.front hbare

theorem steady_marked {c : Char} (hc : isGroupMark c = true) {body : Part × List Part} {p : Part}
    (hbody : AreSteady rule body) (hp : p.regex.Each (Single.Steady rule)) :
    (marked c (Part.join body) p).Each (Single.Steady rule) := by
  by_cases hmark : c = '!'
  · have hend : Regex.segmentEnd.Each (Single.Steady rule) :=
      ⟨⟨Single.steady_literal (evenUnder_of_basic (by decide)), trivial⟩, trivial⟩
    have hwild : Single.notSeparator.Steady rule := fun _ => rfl
    rw [hmark, marked_negated]
    refine ⟨⟨⟨hbody.join, (Regex.each_append _ _).mpr ⟨?_, hend⟩⟩, hwild, trivial⟩, hp⟩
    split
    · trivial
    · exact hp
  · rw [marked_of_ne hc hmark]
    exact ⟨hbody.join, hp⟩

/-- **Marking changes nothing** in the parts of a pattern if its characters are compared alike. -/
theorem steady_parts (d : Char) (afterStar : Bool) (g : Glob)
    (h : ∀ c ∈ g.text, EvenUnder rule c) :
    AreSteady rule (parts d afterStar g) := by
  induction d, afterStar, g using parts.induct with
  | case1 d afterStar => exact List.forall_mem_singleton.mpr trivial
  | case2 d afterStar c body rest hmark _ _ _ ihb ihr =>
    simp only [text, List.forall_mem_cons, List.forall_mem_append] at h
    rw [parts, if_pos hmark]
    exact (ihr h.2.2.2).front
      (steady_marked (Bool.and_eq_true_iff.mp hmark).1 (ihb h.2.1.2))
  | case3 d afterStar c body rest hmark ih =>
    obtain ⟨hc, hrest⟩ := List.forall_mem_cons.mp h
    rw [parts, if_neg hmark]
    exact (ih hrest).place hc
  | case4 d afterStar c rest hno ih =>
    obtain ⟨hc, hrest⟩ := List.forall_mem_cons.mp h
    rw [parts.eq_3 _ _ _ _ hno]
    exact (ih hrest).place hc
  | case5 d afterStar c rest _ _ _ ih =>
    obtain ⟨hc, hrest⟩ := List.forall_mem_cons.mp (List.forall_mem_cons.mp h).2
    rw [parts]
    exact (ih hrest).front fun hp => ⟨steady_quote hc, hp⟩
  | case6 d afterStar body rest _ _ _ ih =>
    simp only [text, List.forall_mem_cons, List.forall_mem_append] at h
    rw [parts]
    exact (ih h.2.2).front fun hp => ⟨steady_item h.1.2, hp⟩
  | case7 d afterStar body rest _ _ _ ihb ihr =>
    simp only [text, List.forall_mem_cons, List.forall_mem_append] at h
    rw [parts]
    exact (ihr h.2.2).front fun hp => ⟨(ihb h.1.2).join, hp⟩
  | case8 d afterStar body rest _ _ _ ihb ihr =>
    simp only [text, List.forall_mem_cons, List.forall_mem_append] at h
    rw [parts]
    refine (ihr h.2.2).front fun hp => (Regex.each_append _ _).mpr ⟨?_, hp⟩
    have hbody := ihb h.1.2
    split
    · exact ⟨hbody.join, trivial⟩
    · split
      · rename_i v vs hv
        have hvalues : ∀ x ∈ v :: vs, (Regex.chars x).Each (Single.Steady rule) := fun x hx =>
          steady_chars fun c hc => by
            rcases (Range.mem_expand? hv).2 x hx c hc with rfl | ⟨-, hz⟩
            · exact evenUnder_of_basic (by decide)
            · exact evenUnder_of_basic (Char.le_trans hz (by decide))
        obtain ⟨hfirst, hothers⟩ := List.forall_mem_cons.mp hvalues
        exact ⟨each_alternatives
          (List.forall_mem_cons.mpr ⟨hfirst, List.forall_mem_map.mpr hothers⟩), trivial⟩
      · have hopen : (Single.literal (.quote '\x7b')).Steady rule :=
          steady_quote (evenUnder_of_basic (by decide))
        have hclose : (Single.literal (.quote '\x7d')).Steady rule :=
          steady_quote (evenUnder_of_basic (by decide))
        have hfirst := (List.forall_mem_cons.mp hbody).1
        exact ⟨hopen, (Regex.each_append _ _).mpr ⟨hfirst, hclose, trivial⟩⟩

/-- Whatever differences of case the flags ignore, they do so alike for sets and for single
    characters: where they ignore that of all letters, the text has no upper-case letter beyond the
    basic plane. -/
def FoldsEvenly (flags : Regex.Flags) (cs : List Char) : Prop :=
  ∀ c ∈ cs, EvenUnder flags.caseRule c

/-- So it is where case counts. -/
theorem foldsEvenly_of_exact {flags : Regex.Flags} (h : flags.ignoreCase = false) (cs : List Char) :
    FoldsEvenly flags cs := fun c _ hrule => by
  rw [Regex.Flags.caseRule, h] at hrule
  cases hrule

end Steady

/-! ## 5. Alternatives -/

section Alternatives

open Regex (SpansUnder InsideUnder)

variable {flags : Regex.Flags} {text u v : List Char} {body : Glob}

/-- The regex of an alternative that stands between delimiters. -/
def alternative (d : Char) (a : Glob) : Regex := (parts d false a).1.regex

theorem parts_eq_pieces (hd : isGroupMark d = false) (body : Glob) :
    (parts d false body).1 :: (parts d false body).2 =
      (body.pieces d).map fun a => (parts d false a).1 := by
  rw [parts_pieces hd]
  rfl

/-- The alternatives of a group that are spelled with a leading dot. -/
def dotted (body : Glob) : List Glob := (body.pieces '|').filter (·.text.head? == some '.')

/-- The guard of a marked group, by the alternatives that are spelled with a dot. -/
theorem guard_of_isGroupMark {c : Char} (hc : isGroupMark c = true) (body rest : Glob) :
    (char c (group .parens body rest)).guard =
      match body.dotted with
      | a :: others =>
        if c = '!' then .notDot .done
        else .grouped (.notDot (.bar (.group .ahead
          (.alternatives (a.alternative '|') (others.map (alternative '|'))) .once .done))) .once
      | [] => .notDot .done := by
  have hdotted : ((parts '|' false body).1 :: (parts '|' false body).2).filter
      (·.text.head? == some '.') = body.dotted.map fun a => (parts '|' false a).1 := by
    rw [parts_eq_pieces rfl, List.filter_map, dotted]
    refine congrArg _ (List.filter_congr fun a ha => ?_)
    rw [Function.comp_apply, text_fst_parts false ((pieces_spec '|' body).1 a ha)]
  rw [guard, if_pos hc]
  simp only [hdotted]
  cases body.dotted with
  | nil => rfl
  | cons a others =>
    simp only [List.map_cons, List.map_map]
    rfl

/-- Alternatives that are a set in effect: each is written for single characters, equally many, and
    they agree in all but the last. -/
def AreSet (d : Char) : List Glob → Prop
  | [] => False
  | first :: others =>
    (Regex.alternatives (first.alternative d) (others.map (alternative d))).IsSet

/-- An alternative given twice is no set. -/
theorem not_areSet_twice (d : Char) (a : Glob) : ¬ AreSet d [a, a] :=
  Regex.not_isSet_twice (barFree_parts d false a _ List.mem_cons_self)

theorem insideUnder_alternative {first : Glob} {others : List Glob}
    (heven : AreSet d (first :: others) → ∀ a ∈ first :: others, FoldsEvenly flags a.text) :
    InsideUnder flags text (.alternatives (first.alternative d) (others.map (alternative d))) u v ↔
      ∃ a ∈ first :: others, SpansUnder flags text (a.alternative d) u v := by
  have hbar : ∀ x ∈ first.alternative d :: others.map (alternative d), x.BarFree := by
    rw [← List.map_cons]
    exact List.forall_mem_map.mpr fun a _ => barFree_parts d false a _ List.mem_cons_self
  rw [Regex.insideUnder_alternatives hbar, ← List.map_cons]
  · simp only [List.mem_map, exists_exists_and_eq_and]
  · rw [← List.map_cons]
    exact fun _ hset => List.forall_mem_map.mpr fun a ha =>
      steady_parts d false a (heven hset a ha) _ List.mem_cons_self

/-- The contents of a group are the alternatives that its pieces stand for. -/
theorem join_parts (hd : isGroupMark d = false) (body : Glob) :
    Part.join (parts d false body) = .alternatives ((body.splitOn d).1.alternative d)
      ((body.splitOn d).2.map (alternative d)) := by
  rw [parts_pieces hd, Part.join, List.map_map]
  rfl

/-- **The contents of a group** span what one of its alternatives spans. -/
theorem insideUnder_pieces (hd : isGroupMark d = false)
    (heven : AreSet d (body.pieces d) → ∀ a ∈ body.pieces d, FoldsEvenly flags a.text) :
    InsideUnder flags text (Part.join (parts d false body)) u v ↔
      ∃ a ∈ body.pieces d, SpansUnder flags text (a.alternative d) u v := by
  rw [join_parts hd]
  exact insideUnder_alternative heven

/-- The classes of a pattern are in order if those of all its pieces are. -/
theorem inOrder_pieces (d : Char) : body.InOrder ↔ ∀ p ∈ body.pieces d, p.InOrder := by
  simp only [InOrder, ← (pieces_spec d body).2, List.mem_flatMap, forall_exists_index, and_imp]
  exact ⟨fun h p hp cls => h cls p hp, fun h cls p hp => h p hp cls⟩

end Alternatives

end Glob

/-! ## 6. Patterns that stay in their segment -/

namespace Glob

open Regex (SpansUnder InsideUnder Local Single)

variable {flags : Regex.Flags} {text : List Char} {g : Glob}

/-- The part of a pattern whose separators all divide segments reads on within a segment. -/
theorem local_spansUnder_parts (h : g.Separated) :
    Local (SpansUnder flags text (parts '/' false g).1.regex) := by
  have hparts := translation_parts (L := True) admits_stays '/' false g (writtenIn_stays h)
    (.inl trivial)
  exact Regex.local_spans
    ((List.forall_mem_cons.mp hparts).1.compared Regex.stays_marked flags)

/-- So do the contents of a group of such a pattern. -/
theorem local_insideUnder (h : g.Separated) (hslash : '/' ∉ g.text) :
    Local (InsideUnder flags text (Part.join (parts '|' false g))) := by
  have hgroup : Local (SpansUnder flags text
      (parts '/' false (group .parens g done)).1.regex) :=
    local_spansUnder_parts ⟨hslash, h, trivial⟩
  refine hgroup.congr fun u v => ?_
  have hregex : (parts '/' false (group .parens g done)).1.regex =
      .group .plain (Part.join (parts '|' false g)) .once .done := by
    rw [parts]
    rfl
  rw [hregex, Regex.spansUnder_group Regex.barFree_done]
  simp only [Regex.spansUnder_done, exists_eq_right, Regex.Quantifier.Spans]

end Glob

/-! ## 7. Compiled patterns of one segment -/

namespace CompiledGlob

open Glob (StandsForItself)
open Regex (SpansUnder)
open Segmentation (body)

variable {pattern pattern' word rest rest' : List Char} {options : Option MatchOptions}
  {negated : Option Bool} {serial : Nat} {g g' : CompiledGlob}

/-- A pattern compiles if one does under options with the same flags and its classes are in order
    with those of that one. -/
theorem exists_ofPattern_of_inOrder {options' : Option MatchOptions}
    (h : ofPattern pattern options negated serial = .ok g)
    (hsame : MatchOptions.regexFlags options' = MatchOptions.regexFlags options)
    (hclasses : (Glob.read (body pattern)).InOrder → (Glob.read (body pattern')).InOrder) :
    ∃ g', ofPattern pattern' options' negated serial = .ok g' := by
  obtain ⟨flags, hoptions, hagree, hranges⟩ := inOrder_ofPattern h
  rw [Segmentation.inOrder_middle] at hranges
  refine (exists_ofPattern_iff_inOrder (hsame.trans hoptions) hagree negated serial).mpr ?_
  rw [Segmentation.inOrder_middle]
  exact hclasses hranges

/-- Patterns that are compiled under the same options have the same flags. -/
theorem flags_eq {options' : Option MatchOptions} {negated' : Option Bool} {serial' : Nat}
    (h : ofPattern pattern options negated serial = .ok g)
    (h' : ofPattern pattern' options' negated' serial' = .ok g')
    (hoptions : MatchOptions.regexFlags options' = MatchOptions.regexFlags options) :
    g'.regex.flags = g.regex.flags := by
  obtain ⟨hflags, -⟩ := isFoundIn_ofPattern h
  obtain ⟨hflags', -⟩ := isFoundIn_ofPattern h'
  exact Except.ok.inj (hflags'.symm.trans (hoptions.trans hflags))

/-- **A compiled pattern of one segment** that is no globstar accepts what the regex of the segment
    spans under its flags. -/
theorem isFoundIn_iff_segment (hdir : currentDirectory? pattern = none)
    (hbare : (Glob.read pattern).hasBare '/' = false) (hstars : ¬ (Glob.read pattern).IsGlobstar)
    (h : ofPattern pattern options negated serial = .ok g) (c : List Char) :
    g.isFoundIn c = true ↔ SpansUnder g.regex.flags c
      ((Glob.read pattern).segment (MatchOptions.matchesDot options)).regex c [] := by
  obtain ⟨-, hfound⟩ := isFoundIn_ofPattern h
  rw [hfound, Segmentation.middle_of_not_hasBare hdir hbare hstars]
  exact Iff.rfl

theorem currentDirectory?_of_word (hne : word ≠ []) (hword : ∀ c ∈ word, StandsForItself c)
    (rest : List Char) : currentDirectory? (word ++ rest) = none := by
  obtain ⟨x, word, rfl⟩ := List.exists_cons_of_ne_nil hne
  refine Option.eq_none_iff_forall_ne_some.mpr fun r hr => ?_
  exact absurd (List.cons.inj (currentDirectory?_eq_some.mp hr)).1 (hword x List.mem_cons_self).ne

/-- A pattern compiles behind characters that stand for themselves if another one does whose classes
    are in order no less often. -/
theorem exists_ofPattern_of_word (hne : word ≠ []) (hword : ∀ c ∈ word, StandsForItself c)
    (h : ofPattern (word ++ rest) options negated serial = .ok g)
    (hclasses : (Glob.read rest).InOrder → (Glob.read rest').InOrder) :
    ∃ g', ofPattern (word ++ rest') options negated serial = .ok g' := by
  have hbody (rest : List Char) : body (word ++ rest) = word ++ rest := by
    rw [body, currentDirectory?_of_word hne hword, Option.getD_none]
  have hinOrder (rest : List Char) :
      (Glob.read (word ++ rest)).InOrder ↔ (Glob.read rest).InOrder := by
    rw [Glob.read_append_of_standsForItself hword, Glob.InOrder, Glob.classes_append,
      Glob.classes_chars]
    exact Iff.rfl
  refine exists_ofPattern_of_inOrder h rfl fun hranges => ?_
  rw [hbody, hinOrder] at hranges ⊢
  exact hclasses hranges

/-- **A pattern that begins with characters that stand for themselves** needs no guard. -/
theorem isFoundIn_iff_of_word (hne : word ≠ []) (hword : ∀ c ∈ word, StandsForItself c)
    (hbare : (Glob.read rest).hasBare '/' = false)
    (h : ofPattern (word ++ rest) options negated serial = .ok g) (c : List Char) :
    g.isFoundIn c = true ↔ SpansUnder g.regex.flags c
      (Regex.chars word ++ (Glob.parts '/' false (Glob.read rest)).1.regex) c [] := by
  have hread := Glob.read_append_of_standsForItself hword rest
  have hdir := currentDirectory?_of_word hne hword rest
  have hbare' : (Glob.read (word ++ rest)).hasBare '/' = false := by
    rw [hread, Glob.hasBare_chars_append hword (by decide), hbare]
  obtain ⟨x, word, rfl⟩ := List.exists_cons_of_ne_nil hne
  have hx : StandsForItself x := hword x List.mem_cons_self
  have hstars : ¬ (Glob.read (x :: word ++ rest)).IsGlobstar := not_isGlobstar_read (.inl hx.ne)
  have hguard : (Glob.read (x :: word ++ rest)).guard = .done := by
    rw [hread]
    exact Glob.guard_of_standsForItself hx _
  rw [isFoundIn_iff_segment hdir hbare' hstars h, Glob.segment_of_not_isGlobstar _ hstars, hguard,
    ite_self, hread, Glob.regex_parts_chars (by decide) false hword]
  exact Iff.rfl

end CompiledGlob

end Wildcard
