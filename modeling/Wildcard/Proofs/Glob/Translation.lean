import Wildcard.Glob.Parts
import Wildcard.Proofs.Glob.Range
import Wildcard.Proofs.Regex.Items
import Wildcard.Proofs.Regex.Spelling

/-!
# The shape of translated patterns

The regexes that patterns are written as come from few constructors (`Translation`): characters
and classes, groups of alternatives, the two guards, and the group that stands for a negated one.
A translation holds no bar at its own level and does not ask for the beginning of the text, and
marking its choices gives a translation again (`Translation.markInside`).

* `translation_parts`: the regexes of all parts of a pattern are translations, written with the
  characters and classes of the pattern only.
* `isSpelled_parts`: they are read back from their text.
-/

namespace Wildcard

/-! ## 1. Translations -/

namespace Regex

/-- A dot, as it is written in a guard, marked or not. -/
def Single.IsDot (s : Single) : Prop := s = .literal (.quote '.') ∨ s = .choice (.quote '.')

/-- Whatever reaches to the end of the segment but the given alternatives with what follows them;
    and then the rest. -/
def exceptFor (body tail rest : Regex) : Regex :=
  .group .plain
    (.group .notAhead (.group .plain body .once (tail ++ segmentEnd)) .once
      (.single .notSeparator .lazyStar .done))
    .once rest

/-- The regexes that patterns are written as, with single-character items from a given class. But
    for dots they look ahead only if that is allowed. -/
inductive Translation (S : Single → Prop) (L : Prop) : Regex → Prop
  | done : Translation S L .done
  | single {s : Single} {q : Quantifier} {rest : Regex} :
      S s → Translation S L rest → Translation S L (.single s q rest)
  | group {first : Regex} {others : List Regex} {q : Quantifier} {rest : Regex} :
      (∀ x ∈ first :: others, Translation S L x) → Translation S L rest →
        Translation S L (.group .plain (alternatives first others) q rest)
  /-- No dot comes next. -/
  | notDot {s : Single} {rest : Regex} :
      S s → s.IsDot → Translation S L rest →
        Translation S L (.group .notAhead (.single s .once .done) .once rest)
  /-- One of the alternatives comes next. -/
  | ahead {first : Regex} {others : List Regex} {rest : Regex} :
      L → (∀ x ∈ first :: others, Translation S L x) → Translation S L rest →
        Translation S L (.group .ahead (alternatives first others) .once rest)
  | except {first : Regex} {others : List Regex} {tail rest : Regex} :
      L → S .notSeparator → (∀ x ∈ first :: others, Translation S L x) → Translation S L tail →
        Translation S L rest → Translation S L (exceptFor (alternatives first others) tail rest)

namespace Translation

variable {S S' : Single → Prop} {L : Prop} {r s : Regex}

theorem barFree (h : Translation S L r) : r.BarFree := by
  induction h with
  | done => trivial
  | single _ _ ih => exact ih
  | group _ _ _ ih => exact ih
  | notDot _ _ _ ih => exact ih
  | ahead _ _ _ _ ih => exact ih
  | except _ _ _ _ _ _ _ ih => exact ih

theorem append (hr : Translation S L r) (hs : Translation S L s) : Translation S L (r ++ s) := by
  induction hr with
  | done => exact hs
  | single h _ ih => exact .single h ih
  | group h _ _ ih => exact .group h ih
  | notDot h hd _ ih => exact .notDot h hd ih
  | ahead hL h _ _ ih => exact .ahead hL h ih
  | except hL hwild h ht _ _ _ ih => exact .except hL hwild h ht ih

theorem of_chars {cs : List Char} (h : ∀ c ∈ cs, S (.literal (.quote c))) :
    Translation S L (chars cs) := by
  induction cs with
  | nil => exact .done
  | cons c cs ih =>
    obtain ⟨hc, hcs⟩ := List.forall_mem_cons.mp h
    exact .single hc (ih hcs)

/-- Alternatives hold a property if each does, for a property that joining keeps. -/
theorem alternatives_of {P : Regex → Prop} (hadd : ∀ {r s}, P r → P s → P (r ++ s))
    (hbar : ∀ {r}, P r → P (bar r)) {first : Regex} {others : List Regex}
    (h : ∀ x ∈ first :: others, P x) : P (alternatives first others) := by
  induction others generalizing first with
  | nil => exact h first List.mem_cons_self
  | cons second others ih =>
    obtain ⟨hfirst, hrest⟩ := List.forall_mem_cons.mp h
    exact hadd hfirst (hbar (ih hrest))

theorem unrooted (h : Translation S L r) : r.Unrooted := by
  induction h with
  | done => trivial
  | single _ _ ih => exact ih
  | group _ _ ihs ih => exact ⟨alternatives_of (fun hr hs => hr.append hs) id ihs, ih⟩
  | notDot _ _ _ ih => exact ⟨trivial, ih⟩
  | ahead _ _ _ ihs ih => exact ⟨alternatives_of (fun hr hs => hr.append hs) id ihs, ih⟩
  | except _ _ _ _ _ ihs iht ih =>
    have htail := iht.append (s := segmentEnd) ⟨⟨rfl, trivial⟩, trivial⟩
    exact ⟨⟨⟨alternatives_of (fun hr hs => hr.append hs) id ihs, htail⟩, trivial⟩, ih⟩

/-- All items of a translation are from its class, if the separator is that it looks ahead for. -/
theorem each (hsep : L → S (.literal (.escaped '/'))) (h : Translation S L r) :
    r.Each S := by
  have hadd {r s : Regex} (hr : r.Each S) (hs : s.Each S) : (r ++ s).Each S :=
    (each_append r s).mpr ⟨hr, hs⟩
  induction h with
  | done => trivial
  | single h _ ih => exact ⟨h, ih⟩
  | group _ _ ihs ih => exact ⟨alternatives_of hadd id ihs, ih⟩
  | notDot h _ _ ih => exact ⟨⟨h, trivial⟩, ih⟩
  | ahead _ _ _ ihs ih => exact ⟨alternatives_of hadd id ihs, ih⟩
  | except hL hwild _ _ _ ihs iht ih =>
    have hend : segmentEnd.Each S := ⟨⟨hsep hL, trivial⟩, trivial⟩
    exact ⟨⟨⟨alternatives_of hadd id ihs, hadd iht hend⟩, hwild, trivial⟩, ih⟩

/-- A translation written with well-spelled items is well spelled. -/
theorem isSpelled (h : Translation Single.IsSpelled L r) : r.IsSpelled :=
  (isSpelled_iff_each r).mpr (h.each fun _ => rfl)

/-! ## 2. Marking choices -/

theorem markLast_append_bar {r : Regex} (hr : r.BarFree) (s : Regex) :
    (r ++ bar s).markLast = (r.markLast.1 ++ bar s.markLast.1, r.markLast.2) := by
  induction r with
  | done => rfl
  | single c q rest ih =>
    rw [single_append, markLast, markLast, ih hr]
    split <;> rfl
  | anchor a rest ih => rw [anchor_append, markLast, markLast, ih hr]; rfl
  | group k b q rest _ ih =>
    rw [group_append, markLast, markLast, ih hr]
    split <;> rfl
  | bar rest => exact absurd hr id

theorem markLast_alternatives {first : Regex} {others : List Regex}
    (h : ∀ x ∈ first :: others, x.BarFree) :
    (alternatives first others).markLast.1 =
      alternatives first.markLast.1 (others.map fun r => r.markLast.1) := by
  induction others generalizing first with
  | nil => rfl
  | cons second others ih =>
    obtain ⟨hfirst, hrest⟩ := List.forall_mem_cons.mp h
    rw [alternatives, markLast_append_bar hfirst, ih hrest]
    rfl

theorem markInside_append (r s : Regex) : (r ++ s).markInside = r.markInside ++ s.markInside := by
  induction r with
  | done => rfl
  | single c q rest ih => rw [single_append, markInside, ih]; rfl
  | anchor a rest ih => rw [anchor_append, markInside, ih]; rfl
  | group k b q rest _ ih => rw [group_append, markInside, ih]; rfl
  | bar rest ih => rw [bar_append, markInside, ih]; rfl

theorem markInside_alternatives (first : Regex) (others : List Regex) :
    (alternatives first others).markInside =
      alternatives first.markInside (others.map markInside) := by
  induction others generalizing first with
  | nil => rfl
  | cons second others ih =>
    rw [alternatives, markInside_append, markInside, ih]
    rfl

theorem snd_plains {r : Regex} (hr : r.BarFree) : r.plains.2 = [] := by
  induction r with
  | done => rfl
  | single s q rest ih => cases q <;> exact ih hr
  | anchor a rest ih => exact ih hr
  | group k b q rest _ ih => cases k <;> cases q <;> exact ih hr
  | bar rest => exact absurd hr id

/-- Without a bar there is nothing to choose from. -/
theorem markIfSet_of_barFree {r : Regex} (hr : r.BarFree) : r.markIfSet = r := by
  unfold markIfSet
  have h := snd_plains hr
  split
  · rfl
  · rename_i hne
    exact (hne r.plains.1 (Prod.ext rfl h)).elim

/-- Marking a regex without a bar marks what is in its groups. -/
theorem markChoices_of_barFree {r : Regex} (hr : r.markInside.BarFree) :
    r.markChoices = r.markInside :=
  markIfSet_of_barFree hr

theorem isDot_marked {s : Single} (h : s.IsDot) : s.marked.IsDot := by
  rcases h with rfl | rfl
  · exact .inr rfl
  · exact .inr rfl

theorem markLast_translation (hS : ∀ s, S s → S s.marked) (h : Translation S L r) :
    Translation S L r.markLast.1 := by
  have all {first : Regex} {others : List Regex} (h : ∀ x ∈ first :: others, Translation S L x)
      (ih : ∀ x ∈ first :: others, Translation S L x.markLast.1) :
      ∃ first' others', (alternatives first others).markLast.1 = alternatives first' others' ∧
        ∀ x ∈ first' :: others', Translation S L x := by
    refine ⟨_, _, markLast_alternatives fun x hx => (h x hx).barFree, ?_⟩
    exact List.forall_mem_cons.mpr
      ⟨ih _ List.mem_cons_self, List.forall_mem_map.mpr fun x hx => ih x (List.mem_cons_of_mem _ hx)⟩
  induction h with
  | done => exact .done
  | single h _ ih =>
    rw [markLast]
    split
    · exact .single h ih
    · exact .single (hS _ h) ih
  | group h _ ihs ih =>
    rw [markLast]
    split
    · exact .group h ih
    · obtain ⟨first', others', heq, h'⟩ := all h ihs
      rw [heq]
      exact .group h' ih
  | notDot h hd _ ih =>
    rw [markLast]
    split
    · exact .notDot h hd ih
    · exact .notDot (hS _ h) (isDot_marked hd) ih
  | ahead hL h _ ihs ih =>
    rw [markLast]
    split
    · exact .ahead hL h ih
    · obtain ⟨first', others', heq, h'⟩ := all h ihs
      rw [heq]
      exact .ahead hL h' ih
  | except hL hwild h ht _ _ _ ih =>
    rw [exceptFor, markLast]
    split
    · exact .except hL hwild h ht ih
    · exact .except hL hwild h ht ih

/-- What marking does to the alternatives of a group leaves alternatives. -/
theorem exists_marked_alternatives (hS : ∀ s, S s → S s.marked) {first : Regex}
    {others : List Regex} (ih : ∀ x ∈ first :: others, Translation S L x.markInside) :
    ∃ first' others',
      (alternatives first others).markInside.markIfSet = alternatives first' others' ∧
        ∀ x ∈ first' :: others', Translation S L x := by
  have hmarked : ∀ x ∈ first.markInside :: others.map markInside, Translation S L x :=
    List.forall_mem_cons.mpr
      ⟨ih _ List.mem_cons_self, List.forall_mem_map.mpr fun x hx => ih x (List.mem_cons_of_mem _ hx)⟩
  rw [markInside_alternatives, markIfSet]
  split
  · exact ⟨_, _, rfl, hmarked⟩
  · split
    · refine ⟨_, _, markLast_alternatives fun x hx => (hmarked x hx).barFree, ?_⟩
      obtain ⟨hfirst, hothers⟩ := List.forall_mem_cons.mp hmarked
      exact List.forall_mem_cons.mpr ⟨markLast_translation hS hfirst,
        List.forall_mem_map.mpr fun x hx => markLast_translation hS (hothers x hx)⟩
    · exact ⟨_, _, rfl, hmarked⟩

/-- **Marking the choices of a translation gives a translation.** -/
theorem markInside_translation (hS : ∀ s, S s → S s.marked) (h : Translation S L r) :
    Translation S L r.markInside := by
  induction h with
  | done => exact .done
  | single h _ ih => exact .single h ih
  | group _ _ ihs ih =>
    obtain ⟨first', others', heq, h'⟩ := exists_marked_alternatives hS ihs
    rw [markInside, heq]
    exact .group h' ih
  | @notDot s rest h hd _ ih =>
    have hbody : (Regex.single s .once .done).markInside.markIfSet = .single s .once .done :=
      markIfSet_of_barFree barFree_done
    rw [markInside, hbody]
    exact .notDot h hd ih
  | ahead hL _ _ ihs ih =>
    obtain ⟨first', others', heq, h'⟩ := exists_marked_alternatives hS ihs
    rw [markInside, heq]
    exact .ahead hL h' ih
  | @except first others tail rest hL hwild _ _ _ ihs iht ih =>
    obtain ⟨first', others', heq, h'⟩ := exists_marked_alternatives hS ihs
    have hend : segmentEnd.markInside = segmentEnd := rfl
    have htail : (tail.markInside ++ segmentEnd).BarFree := iht.barFree.append barFree_done
    have hinner : (Regex.group .plain (alternatives first others) .once
        (tail ++ segmentEnd)).markInside.markIfSet =
          .group .plain (alternatives first' others') .once (tail.markInside ++ segmentEnd) := by
      rw [markInside, heq, markInside_append, hend]
      exact markIfSet_of_barFree htail
    have hfront (b : Regex) :
        (Regex.group .notAhead b .once
          (Regex.single .notSeparator .lazyStar .done).markInside).markIfSet =
            .group .notAhead b .once (.single .notSeparator .lazyStar .done) :=
      markIfSet_of_barFree barFree_done
    rw [exceptFor, markInside, markInside, hinner, hfront]
    exact .except hL hwild h' iht ih

end Translation

end Regex

/-! ## 3. The parts of a pattern -/

namespace Glob

open Regex (Translation Single)

/-- A class of single-character items that holds all characters but perhaps the separator and the
    backslash. -/
structure Admits (S : Single → Prop) : Prop where
  char : ∀ c, c ≠ '/' → c ≠ '\\' → S (.literal (.quote c))

/-- A group in parentheses comes next. -/
def OpensGroup : Glob → Prop
  | group .parens _ _ => True
  | _ => False

/-- A character in front of the rest of a pattern reads more than itself: a star or a question mark
    that marks no group, or the mark of a negated group. -/
def IsWild (c : Char) (rest : Glob) : Prop :=
  (c = '*' ∨ c = '?') ∧ ¬ rest.OpensGroup ∨ c = '!' ∧ rest.OpensGroup

/-- Some value of the range that a text stands for holds a backslash. -/
def spellsBackslash (range : List Char) : Bool :=
  ((Range.expand? range).getD []).any (·.contains '\\')

/-- The separators, backslashes, wildcards and classes of a pattern are in a class of
    single-character items. A separator that divides parts counts for nothing. -/
def WrittenIn (S : Single → Prop) (delimiter : Char) : Glob → Prop
  | done => True
  | char c rest =>
    (c = '/' → delimiter = '/' ∨ S (.literal (.escaped '/'))) ∧
      (c = '\\' → S (.literal (.quote '\\'))) ∧ (IsWild c rest → S .notSeparator) ∧
        rest.WrittenIn S delimiter
  | escaped c rest =>
    (c = '/' ∨ c = '\\' → S (.literal (.quote c))) ∧ rest.WrittenIn S delimiter
  | bracket body rest => S (Bracket.item body) ∧ rest.WrittenIn S delimiter
  | group .parens body rest => body.WrittenIn S '|' ∧ rest.WrittenIn S delimiter
  | group .braces body rest =>
    (spellsBackslash body.text = true → S (.literal (.quote '\\'))) ∧ body.WrittenIn S ',' ∧
      rest.WrittenIn S delimiter

theorem opensGroup_iff {g : Glob} : g.OpensGroup ↔ ∃ body rest, g = group .parens body rest := by
  constructor
  · intro h
    cases g with
    | group k body rest =>
      cases k with
      | parens => exact ⟨body, rest, rfl⟩
      | braces => exact absurd h id
    | done => exact absurd h id
    | char c rest => exact absurd h id
    | escaped c rest => exact absurd h id
    | bracket body rest => exact absurd h id
  · intro h
    obtain ⟨body, rest, rfl⟩ := h
    trivial

instance decidableOpensGroup : (g : Glob) → Decidable g.OpensGroup
  | group .parens _ _ => isTrue trivial
  | group .braces _ _ => isFalse id
  | done => isFalse id
  | char _ _ => isFalse id
  | escaped _ _ => isFalse id
  | bracket _ _ => isFalse id

/-- No group in parentheses is negated. -/
def NegationFree : Glob → Prop
  | done => True
  | char c rest => (c = '!' → ¬ rest.OpensGroup) ∧ rest.NegationFree
  | escaped _ rest => rest.NegationFree
  | bracket _ rest => rest.NegationFree
  | group _ body rest => body.NegationFree ∧ rest.NegationFree

instance decidableNegationFree : (g : Glob) → Decidable g.NegationFree
  | done => isTrue trivial
  | char c rest =>
    have := decidableNegationFree rest
    inferInstanceAs (Decidable ((c = '!' → ¬ rest.OpensGroup) ∧ rest.NegationFree))
  | escaped _ rest => decidableNegationFree rest
  | bracket _ rest => decidableNegationFree rest
  | group _ body rest =>
    have := decidableNegationFree body
    have := decidableNegationFree rest
    inferInstanceAs (Decidable (body.NegationFree ∧ rest.NegationFree))

variable {S : Single → Prop} {L : Prop} {d : Char}

theorem place_eq (d : Char) (afterStar : Bool) (c : Char) (ps : Part × List Part) :
    place d afterStar c ps =
      if c = d then ({}, ps.1 :: ps.2)
      else if afterStar && c == '*' then (ps.1.before [c] id, ps.2)
      else (ps.1.before [c] (bare c), ps.2) := rfl

/-- The regexes of some parts are translations. -/
def AreTranslations (S : Single → Prop) (L : Prop) (ps : Part × List Part) : Prop :=
  ∀ p ∈ ps.1 :: ps.2, Translation S L p.regex

theorem AreTranslations.front {ps : Part × List Part} (h : AreTranslations S L ps) {p : Part}
    (hp : Translation S L ps.1.regex → Translation S L p.regex) : AreTranslations S L (p, ps.2) := by
  obtain ⟨hfirst, hothers⟩ := List.forall_mem_cons.mp h
  exact List.forall_mem_cons.mpr ⟨hp hfirst, hothers⟩

/-- A group of the contents of parts, in front of a translation. -/
theorem AreTranslations.group {ps : Part × List Part} (h : AreTranslations S L ps)
    {q : Regex.Quantifier} {rest : Regex} (hrest : Translation S L rest) :
    Translation S L (.group .plain (Part.join ps) q rest) := by
  obtain ⟨hfirst, hothers⟩ := List.forall_mem_cons.mp h
  exact .group (List.forall_mem_cons.mpr ⟨hfirst, List.forall_mem_map.mpr hothers⟩) hrest

theorem translation_bare (hS : Admits S) {c : Char} {rest : Regex}
    (hc : c = '/' → S (.literal (.escaped '/'))) (hback : c = '\\' → S (.literal (.quote '\\')))
    (hwild : c = '*' ∨ c = '?' → S .notSeparator) (hrest : Translation S L rest) :
    Translation S L (bare c rest) := by
  unfold bare
  split
  · exact .single (hwild (.inr rfl)) hrest
  · exact .single (hwild (.inl rfl)) hrest
  · exact .single (hc rfl) hrest
  · rename_i h
    refine .single ?_ hrest
    by_cases hc : c = '\\'
    · rw [hc]
      exact hback hc
    · exact hS.char c (fun e => h e) hc

theorem translation_marked {mark : Char} (hmark : isGroupMark mark = true)
    (hnegation : mark = '!' → L ∧ S .notSeparator) {body : Part × List Part} {rest : Part}
    (hbody : AreTranslations S L body) (hrest : Translation S L rest.regex) :
    Translation S L (marked mark (Part.join body) rest) := by
  unfold marked
  split
  · exact hbody.group hrest
  · exact hbody.group hrest
  · exact hbody.group hrest
  · exact hbody.group hrest
  · rename_i h1 h2 h3 h4
    have hnegated : mark = '!' := by
      have := of_decide_eq_true hmark
      simp only [List.mem_cons, List.not_mem_nil, or_false] at this
      rcases this with e | e | e | e | e
      · exact absurd e h2
      · exact absurd e h3
      · exact absurd e h4
      · exact absurd e h1
      · exact e
    obtain ⟨hfirst, hothers⟩ := List.forall_mem_cons.mp hbody
    have hall := List.forall_mem_cons.mpr ⟨hfirst, List.forall_mem_map.mpr hothers⟩
    obtain ⟨hL, hwild⟩ := hnegation hnegated
    split
    · exact @Translation.except S L _ _ .done _ hL hwild hall .done hrest
    · exact .except hL hwild hall hrest hrest

theorem translation_place (hS : Admits S) {afterStar : Bool} {c : Char} {ps : Part × List Part}
    (hc : c = '/' → d = '/' ∨ S (.literal (.escaped '/')))
    (hback : c = '\\' → S (.literal (.quote '\\')))
    (hwild : ¬ (afterStar && c == '*') = true → c = '*' ∨ c = '?' → S .notSeparator)
    (h : AreTranslations S L ps) : AreTranslations S L (place d afterStar c ps) := by
  rw [place_eq]
  split
  · exact List.forall_mem_cons.mpr ⟨.done, h⟩
  · rename_i hd
    split
    · exact h.front id
    · rename_i hjoins
      refine h.front fun hp => translation_bare hS (fun hs => ?_) hback (hwild hjoins) hp
      exact (hc hs).resolve_left fun e => hd (hs.trans e.symm)

theorem translation_braces (hS : Admits S) {body : Glob} {rest : Part}
    (hback : spellsBackslash body.text = true → S (.literal (.quote '\\')))
    (hbody : AreTranslations S L (parts ',' false body)) (hrest : Translation S L rest.regex) :
    Translation S L
      ((if (parts ',' false body).2 ≠ [] then
          Regex.grouped (Part.join (parts ',' false body)) .once
        else
          match Range.expand? body.text with
          | some (v :: vs) =>
            Regex.grouped (Regex.alternatives (.chars v) (vs.map Regex.chars)) .once
          | _ => .char '{' ((parts ',' false body).1.regex ++ .char '}' .done)) ++ rest.regex) := by
  split
  · exact hbody.group hrest
  · split
    · rename_i v vs hv
      have hvalues : ∀ x ∈ v :: vs, Translation S L (.chars x) := fun x hx =>
        Translation.of_chars fun c hc => by
          have hslash : c ≠ '/' := fun e => by
            have hchar := (Range.mem_expand? hv).2 x hx c hc
            rw [e] at hchar
            exact absurd hchar (by unfold Range.IsValueChar; decide)
          by_cases hc' : c = '\\'
          · rw [hc'] at hc ⊢
            refine hback ?_
            rw [spellsBackslash, hv]
            exact List.any_eq_true.mpr ⟨x, hx, List.contains_iff_mem.mpr hc⟩
          · exact hS.char c hslash hc'
      obtain ⟨hfirst, hothers⟩ := List.forall_mem_cons.mp hvalues
      exact .group (List.forall_mem_cons.mpr ⟨hfirst, List.forall_mem_map.mpr hothers⟩) hrest
    · have hinner := (List.forall_mem_cons.mp hbody).1
      have hopen := hS.char '{' (by decide) (by decide)
      have hclose := hS.char '}' (by decide) (by decide)
      exact .append (.single hopen (hinner.append (.single hclose .done))) hrest

/-- **The regexes of the parts of a pattern are translations**, written with the separators and
    classes of the pattern. Only for negated groups do they look ahead. -/
theorem translation_parts (hS : Admits S) (d : Char) (afterStar : Bool) (g : Glob)
    (hg : g.WrittenIn S d) (hL : L ∨ g.NegationFree) : AreTranslations S L (parts d afterStar g) := by
  induction d, afterStar, g using parts.induct with
  | case1 d afterStar => exact List.forall_mem_cons.mpr ⟨.done, by simp [parts]⟩
  | case2 d afterStar c body rest hmark _ _ _ ihb ihr =>
    rw [parts, if_pos hmark]
    obtain ⟨_, _, hwild, hbody, hrest⟩ := hg
    have hnegated : c = '!' → L ∧ S .notSeparator := fun hc =>
      ⟨hL.elim id fun h => absurd trivial (h.1 hc), hwild (.inr ⟨hc, trivial⟩)⟩
    have hbody' := ihb hbody (hL.imp_right fun h => h.2.1)
    have hrest' := ihr hrest (hL.imp_right fun h => h.2.2)
    have hmark' : isGroupMark c = true := (Bool.and_eq_true_iff.mp hmark).1
    exact hrest'.front fun hp => translation_marked hmark' hnegated hbody' hp
  | case3 d afterStar c body rest hmark ih =>
    rw [parts, if_neg hmark]
    -- a wildcard in front of a group marks it, unless it joins the stars before it
    obtain ⟨hsep, hback, _, hrest⟩ := hg
    refine translation_place hS hsep hback (fun hjoins hc => absurd ?_ hmark)
      (ih hrest (hL.imp_right And.right))
    have hmarks : isGroupMark c = true := by rcases hc with rfl | rfl <;> rfl
    rw [hmarks, Bool.true_and, Bool.eq_false_iff.mpr hjoins]
    rfl
  | case4 d afterStar c rest hno ih =>
    rw [parts.eq_3 _ _ _ _ hno]
    obtain ⟨hsep, hback, hwild, hrest⟩ := hg
    refine translation_place hS hsep hback (fun _ hc => hwild (.inl ⟨hc, fun hopens => ?_⟩))
      (ih hrest (hL.imp_right And.right))
    obtain ⟨body, rest', rfl⟩ := opensGroup_iff.mp hopens
    exact hno body rest' rfl
  | case5 d afterStar c rest _ _ _ ih =>
    rw [parts]
    refine (ih hg.2 hL).front fun hp => .single ?_ hp
    by_cases hc : c = '/' ∨ c = '\\'
    · exact hg.1 hc
    · obtain ⟨hslash, hback⟩ := not_or.mp hc
      exact hS.char c hslash hback
  | case6 d afterStar body rest _ _ _ ih =>
    rw [parts]
    exact (ih hg.2 hL).front fun hp => .single hg.1 hp
  | case7 d afterStar body rest _ _ _ ihb ihr =>
    rw [parts]
    have hbody := ihb hg.1 (hL.imp_right And.left)
    exact (ihr hg.2 (hL.imp_right And.right)).front fun hp => hbody.group hp
  | case8 d afterStar body rest _ _ _ ihb ihr =>
    rw [parts]
    obtain ⟨hback, hbody, hrest⟩ := hg
    have hbody := ihb hbody (hL.imp_right And.left)
    exact (ihr hrest (hL.imp_right And.right)).front fun hp =>
      translation_braces hS hback hbody hp

theorem writtenIn_univ (d : Char) (g : Glob) : g.WrittenIn (fun _ => True) d := by
  induction g generalizing d with
  | done => trivial
  | char c rest ih => exact ⟨fun _ => .inr trivial, fun _ => trivial, fun _ => trivial, ih d⟩
  | escaped c rest ih => exact ⟨fun _ => trivial, ih d⟩
  | bracket body rest ih => exact ⟨trivial, ih d⟩
  | group k body rest ihb ihr =>
    cases k with
    | braces => exact ⟨fun _ => trivial, ihb ',', ihr d⟩
    | parens => exact ⟨ihb '|', ihr d⟩

/-- The regexes of parts hold no bar at their own level. -/
theorem barFree_parts (d : Char) (afterStar : Bool) (g : Glob) :
    ∀ p ∈ (parts d afterStar g).1 :: (parts d afterStar g).2, p.regex.BarFree := fun p hp =>
  have hall : Admits fun _ => True := ⟨fun _ _ _ => trivial⟩
  (translation_parts hall d afterStar g (writtenIn_univ d g) (.inl trivial) p hp).barFree

end Glob

end Wildcard
