import Mathlib.Data.List.Forall2
import Wildcard.Proofs.Glob.Locality
import Wildcard.Proofs.Segmentation

/-!
# What a pattern of one segment denotes

`Glob.Denotes` gives the words of a pattern by rules, one or two for each kind of item, without
looking at regexes. A compiled pattern of one segment accepts exactly the words that it denotes
(`isFoundIn_iff_denotes`): wildcards match leading dots, case counts, and negated groups are left
out.

* `SpansWords`: a regex spans exactly the words of a set. Joining regexes joins words.
* `spansWords_parts`: the regexes of the parts of a pattern span what the pieces of the pattern
  denote.
-/

namespace Wildcard

/-! ## 1. The words that a pattern denotes -/

namespace Glob

/-- A pattern without the stars it begins with. -/
def dropStars : Glob → Glob
  | char '*' rest => rest.dropStars
  | g => g

/-- The words of a pattern. A run of stars is one wildcard; a mark directly before a group in
    parentheses says how often the group is taken, unless the mark is in a run of stars. -/
inductive Denotes : Glob → List Char → Prop
  | done : Denotes .done []
  /-- Any other character stands for itself. -/
  | char {c : Char} {rest : Glob} {w : List Char} :
      c ≠ '*' → c ≠ '?' → (isGroupMark c = true → ¬ rest.OpensGroup) → Denotes rest w →
        Denotes (.char c rest) (c :: w)
  | escaped {c : Char} {rest : Glob} {w : List Char} :
      Denotes rest w → Denotes (.escaped c rest) (c :: w)
  /-- A run of stars is any text without a separator. -/
  | stars {rest : Glob} {x w : List Char} :
      ¬ rest.OpensGroup → '/' ∉ x → Denotes rest.dropStars w → Denotes (.char '*' rest) (x ++ w)
  | anyChar {c : Char} {rest : Glob} {w : List Char} :
      ¬ rest.OpensGroup → c ≠ '/' → Denotes rest w → Denotes (.char '?' rest) (c :: w)
  | bracket {body : List Char} {c : Char} {rest : Glob} {w : List Char} :
      Bracket.Contains body c → Denotes rest w → Denotes (.bracket body rest) (c :: w)
  /-- A group in parentheses is one of its pieces. -/
  | parens {body piece rest : Glob} {x w : List Char} :
      piece ∈ body.pieces '|' → Denotes piece x → Denotes rest w →
        Denotes (.group .parens body rest) (x ++ w)
  /-- A group in braces with a comma is one of its pieces. -/
  | choice {body piece rest : Glob} {x w : List Char} :
      body.hasBare ',' = true → piece ∈ body.pieces ',' → Denotes piece x → Denotes rest w →
        Denotes (.group .braces body rest) (x ++ w)
  /-- A range in braces is one of its values. -/
  | value {body rest : Glob} {values : List (List Char)} {x w : List Char} :
      body.hasBare ',' = false → Range.expand? body.text = some values → x ∈ values →
        Denotes rest w → Denotes (.group .braces body rest) (x ++ w)
  /-- Any other group in braces stands for its contents between braces. -/
  | braces {body rest : Glob} {x w : List Char} :
      body.hasBare ',' = false → Range.expand? body.text = none → Denotes body x →
        Denotes rest w → Denotes (.group .braces body rest) ('{' :: (x ++ '}' :: w))
  | exactlyOnce {body rest : Glob} {w : List Char} :
      Denotes (.group .parens body rest) w → Denotes (.char '@' (.group .parens body rest)) w
  | notOnce {body rest : Glob} {w : List Char} :
      Denotes rest w → Denotes (.char '?' (.group .parens body rest)) w
  | atMostOnce {body rest : Glob} {w : List Char} :
      Denotes (.group .parens body rest) w → Denotes (.char '?' (.group .parens body rest)) w
  | noMore {body rest : Glob} {w : List Char} :
      Denotes rest w → Denotes (.char '*' (.group .parens body rest)) w
  | onceMore {body piece rest : Glob} {x w : List Char} :
      piece ∈ body.pieces '|' → Denotes piece x →
        Denotes (.char '*' (.group .parens body rest)) w →
          Denotes (.char '*' (.group .parens body rest)) (x ++ w)
  | atLeastOnce {body piece rest : Glob} {x w : List Char} :
      piece ∈ body.pieces '|' → Denotes piece x →
        Denotes (.char '*' (.group .parens body rest)) w →
          Denotes (.char '+' (.group .parens body rest)) (x ++ w)

/-- The words of the contents of a group in parentheses. -/
def PieceDenotes (body : Glob) (w : List Char) : Prop := ∃ piece ∈ body.pieces '|', Denotes piece w

/-- Words of a set, any number of them, one after the other. -/
inductive Repeats (words : List Char → Prop) : List Char → Prop
  | none : Repeats words []
  | more {x w : List Char} : words x → Repeats words w → Repeats words (x ++ w)

/-- No hyphen stands directly before a named set in any class. -/
def NamesApart : Glob → Prop
  | done => True
  | char _ rest => rest.NamesApart
  | escaped _ rest => rest.NamesApart
  | bracket body rest => Bracket.HasNamesApart body ∧ rest.NamesApart
  | group _ body rest => body.NamesApart ∧ rest.NamesApart

instance decidableNamesApart : (g : Glob) → Decidable g.NamesApart
  | done => isTrue trivial
  | char _ rest => decidableNamesApart rest
  | escaped _ rest => decidableNamesApart rest
  | bracket body rest =>
    have := decidableNamesApart rest
    inferInstanceAs (Decidable (Bracket.HasNamesApart body ∧ rest.NamesApart))
  | group _ body rest =>
    have := decidableNamesApart body
    have := decidableNamesApart rest
    inferInstanceAs (Decidable (body.NamesApart ∧ rest.NamesApart))

/-! ## 2. The rules read backwards -/

section Inversion

variable {c : Char} {body rest : Glob} {w : List Char}

theorem denotes_done : Denotes done w ↔ w = [] := by
  constructor
  · intro h
    cases h
    rfl
  · intro h
    rw [h]
    exact .done

theorem denotes_char (h1 : c ≠ '*') (h2 : c ≠ '?') (h3 : isGroupMark c = true → ¬ rest.OpensGroup) :
    Denotes (char c rest) w ↔ ∃ x, Denotes rest x ∧ w = c :: x := by
  constructor
  · intro h
    cases h with
    | char _ _ _ hx => exact ⟨_, hx, rfl⟩
    | stars => exact absurd rfl h1
    | anyChar => exact absurd rfl h2
    | exactlyOnce => exact absurd trivial (h3 rfl)
    | notOnce => exact absurd rfl h2
    | atMostOnce => exact absurd rfl h2
    | noMore => exact absurd rfl h1
    | onceMore => exact absurd rfl h1
    | atLeastOnce => exact absurd trivial (h3 rfl)
  · intro ⟨x, hx, hw⟩
    rw [hw]
    exact .char h1 h2 h3 hx

theorem denotes_escaped : Denotes (escaped c rest) w ↔ ∃ x, Denotes rest x ∧ w = c :: x := by
  constructor
  · intro h
    cases h with
    | escaped hx => exact ⟨_, hx, rfl⟩
  · intro ⟨x, hx, hw⟩
    rw [hw]
    exact .escaped hx

theorem denotes_stars (hno : ¬ rest.OpensGroup) : Denotes (char '*' rest) w ↔
    ∃ x y, '/' ∉ x ∧ Denotes rest.dropStars y ∧ w = x ++ y := by
  constructor
  · intro h
    cases h with
    | char h1 => exact absurd rfl h1
    | stars _ hx hy => exact ⟨_, _, hx, hy, rfl⟩
    | noMore => exact absurd trivial hno
    | onceMore => exact absurd trivial hno
  · intro ⟨x, y, hx, hy, hw⟩
    rw [hw]
    exact .stars hno hx hy

theorem denotes_anyChar (hno : ¬ rest.OpensGroup) : Denotes (char '?' rest) w ↔
    ∃ c x, c ≠ '/' ∧ Denotes rest x ∧ w = c :: x := by
  constructor
  · intro h
    cases h with
    | char _ h2 => exact absurd rfl h2
    | anyChar _ hc hx => exact ⟨_, _, hc, hx, rfl⟩
    | notOnce => exact absurd trivial hno
    | atMostOnce => exact absurd trivial hno
  · intro ⟨c, x, hc, hx, hw⟩
    rw [hw]
    exact .anyChar hno hc hx

theorem denotes_bracket {body : List Char} : Denotes (bracket body rest) w ↔
    ∃ c x, Bracket.Contains body c ∧ Denotes rest x ∧ w = c :: x := by
  constructor
  · intro h
    cases h with
    | bracket hc hx => exact ⟨_, _, hc, hx, rfl⟩
  · intro ⟨c, x, hc, hx, hw⟩
    rw [hw]
    exact .bracket hc hx

theorem denotes_parens : Denotes (group .parens body rest) w ↔
    ∃ x y, PieceDenotes body x ∧ Denotes rest y ∧ w = x ++ y := by
  constructor
  · intro h
    cases h with
    | parens hp hx hy => exact ⟨_, _, ⟨_, hp, hx⟩, hy, rfl⟩
  · intro ⟨x, y, ⟨piece, hp, hx⟩, hy, hw⟩
    rw [hw]
    exact .parens hp hx hy

theorem denotes_choice (hcomma : body.hasBare ',' = true) : Denotes (group .braces body rest) w ↔
    ∃ x y, (∃ piece ∈ body.pieces ',', Denotes piece x) ∧ Denotes rest y ∧ w = x ++ y := by
  constructor
  · intro h
    cases h with
    | choice _ hp hx hy => exact ⟨_, _, ⟨_, hp, hx⟩, hy, rfl⟩
    | value hno => exact absurd (hcomma.symm.trans hno) (by decide)
    | braces hno => exact absurd (hcomma.symm.trans hno) (by decide)
  · intro ⟨x, y, ⟨piece, hp, hx⟩, hy, hw⟩
    rw [hw]
    exact .choice hcomma hp hx hy

theorem denotes_value (hno : body.hasBare ',' = false) {values : List (List Char)}
    (hvalues : Range.expand? body.text = some values) : Denotes (group .braces body rest) w ↔
      ∃ x y, x ∈ values ∧ Denotes rest y ∧ w = x ++ y := by
  constructor
  · intro h
    cases h with
    | choice hcomma => exact absurd (hcomma.symm.trans hno) (by decide)
    | value _ hv hx hy =>
      rw [hvalues] at hv
      cases hv
      exact ⟨_, _, hx, hy, rfl⟩
    | braces _ hv => exact absurd (hvalues.symm.trans hv) (by simp)
  · intro ⟨x, y, hx, hy, hw⟩
    rw [hw]
    exact .value hno hvalues hx hy

theorem denotes_braces (hno : body.hasBare ',' = false) (hrange : Range.expand? body.text = none) :
    Denotes (group .braces body rest) w ↔
      ∃ x y, Denotes body x ∧ Denotes rest y ∧ w = '{' :: (x ++ '}' :: y) := by
  constructor
  · intro h
    cases h with
    | choice hcomma => exact absurd (hcomma.symm.trans hno) (by decide)
    | value _ hv => exact absurd (hv.symm.trans hrange) (by simp)
    | braces _ _ hx hy => exact ⟨_, _, hx, hy, rfl⟩
  · intro ⟨x, y, hx, hy, hw⟩
    rw [hw]
    exact .braces hno hrange hx hy

theorem denotes_exactlyOnce : Denotes (char '@' (group .parens body rest)) w ↔
    Denotes (group .parens body rest) w := by
  constructor
  · intro h
    cases h with
    | char _ _ h3 => exact absurd trivial (h3 rfl)
    | exactlyOnce h => exact h
  · exact .exactlyOnce

theorem denotes_atMostOnce : Denotes (char '?' (group .parens body rest)) w ↔
    Denotes rest w ∨ Denotes (group .parens body rest) w := by
  constructor
  · intro h
    cases h with
    | char _ h2 => exact absurd rfl h2
    | anyChar hno => exact absurd trivial hno
    | notOnce h => exact .inl h
    | atMostOnce h => exact .inr h
  · intro h
    rcases h with h | h
    · exact .notOnce h
    · exact .atMostOnce h

/-- A starred group stands for any number of its pieces. -/
theorem denotes_repeated : Denotes (char '*' (group .parens body rest)) w ↔
    ∃ x y, Repeats (PieceDenotes body) x ∧ Denotes rest y ∧ w = x ++ y := by
  constructor
  · intro h
    generalize hg : char '*' (group .parens body rest) = g at h
    induction h with
    | noMore h =>
      cases hg
      exact ⟨[], _, .none, h, rfl⟩
    | onceMore hp hx _ _ ih =>
      cases hg
      obtain ⟨x', y, hx', hy, rfl⟩ := ih rfl
      exact ⟨_, y, .more ⟨_, hp, hx⟩ hx', hy, (List.append_assoc _ _ _).symm⟩
    | char h1 =>
      cases hg
      exact absurd rfl h1
    | stars hno =>
      cases hg
      exact absurd trivial hno
    | _ => cases hg
  · intro ⟨x, y, hx, hy, hw⟩
    rw [hw]
    clear hw
    induction hx with
    | none => exact .noMore hy
    | more hp _ ih =>
      obtain ⟨piece, hp, hx⟩ := hp
      rw [List.append_assoc]
      exact .onceMore hp hx ih

theorem denotes_atLeastOnce : Denotes (char '+' (group .parens body rest)) w ↔
    ∃ x y, PieceDenotes body x ∧ Denotes (char '*' (group .parens body rest)) y ∧ w = x ++ y := by
  constructor
  · intro h
    cases h with
    | char _ _ h3 => exact absurd trivial (h3 rfl)
    | atLeastOnce hp hx hy => exact ⟨_, _, ⟨_, hp, hx⟩, hy, rfl⟩
  · intro ⟨x, y, ⟨piece, hp, hx⟩, hy, hw⟩
    rw [hw]
    exact .atLeastOnce hp hx hy

end Inversion

end Glob

/-! ## 3. Regexes and words -/

namespace Regex

open Glob (Repeats)

variable {t : Subject}

/-- The regex spans exactly the words of a set. -/
def SpansWords (t : Subject) (r : Regex) (words : List Char → Prop) : Prop :=
  ∀ u v, r.Spans t u v ↔ ∃ w, words w ∧ u = w ++ v

theorem SpansWords.congr {r : Regex} {L M : List Char → Prop} (h : SpansWords t r L)
    (hLM : ∀ w, M w ↔ L w) : SpansWords t r M :=
  fun u v => (h u v).trans (exists_congr fun w => and_congr_left fun _ => (hLM w).symm)

theorem spansWords_done : SpansWords t done (· = []) := by
  intro u v
  rw [spans_done]
  simp

/-- Joining regexes joins words. -/
theorem SpansWords.append {r s : Regex} {L M : List Char → Prop} (hr : r.BarFree) (hs : s.BarFree)
    (h : SpansWords t r L) (h' : SpansWords t s M) :
    SpansWords t (r ++ s) fun w => ∃ x y, L x ∧ M y ∧ w = x ++ y := by
  intro u v
  rw [spans_append hr hs]
  constructor
  · intro ⟨m, hm, hv⟩
    obtain ⟨x, hx, rfl⟩ := (h u m).mp hm
    obtain ⟨y, hy, rfl⟩ := (h' m v).mp hv
    exact ⟨x ++ y, ⟨x, y, hx, hy, rfl⟩, (List.append_assoc x y v).symm⟩
  · intro ⟨w, ⟨x, y, hx, hy, hw⟩, hu⟩
    subst hw hu
    refine ⟨y ++ v, (h _ _).mpr ⟨x, hx, List.append_assoc x y v⟩, (h' _ _).mpr ⟨y, hy, rfl⟩⟩

/-- A character that passes a test, in front of other words. -/
theorem SpansWords.single {s : Single} {rest : Regex} {L : List Char → Prop} {p : Char → Prop}
    (hrest : rest.BarFree) (h : SpansWords t rest L)
    (hp : ∀ c, s.accepts t.rule t.dotAll c = true ↔ p c) :
    SpansWords t (.single s .once rest) fun w => ∃ c x, p c ∧ L x ∧ w = c :: x := by
  intro u v
  rw [spans_single hrest]
  constructor
  · intro ⟨m, ⟨c, hc, hu⟩, hm⟩
    obtain ⟨x, hx, rfl⟩ := (h m v).mp hm
    exact ⟨c :: x, ⟨c, x, (hp c).mp hc, hx, rfl⟩, hu⟩
  · intro ⟨w, ⟨c, x, hc, hx, hw⟩, hu⟩
    subst hw hu
    exact ⟨x ++ v, ⟨c, (hp c).mpr hc, rfl⟩, (h _ _).mpr ⟨x, hx, rfl⟩⟩

/-- Any number of characters that pass a test, in front of other words. -/
theorem SpansWords.singles {s : Single} {rest : Regex} {L : List Char → Prop} {p : Char → Prop}
    (hrest : rest.BarFree) (h : SpansWords t rest L)
    (hp : ∀ c, s.accepts t.rule t.dotAll c = true ↔ p c) :
    SpansWords t (.single s .star rest) fun w => ∃ x y, (∀ c ∈ x, p c) ∧ L y ∧ w = x ++ y := by
  intro u v
  rw [spans_single hrest]
  have hrun (u m : List Char) :
      Quantifier.star.Spans (Reads (s.accepts t.rule t.dotAll)) u m ↔
        ∃ x, (∀ c ∈ x, p c) ∧ u = x ++ m :=
    repeated_reads.trans
      (exists_congr fun x => and_congr_left fun _ => forall₂_congr fun c _ => hp c)
  constructor
  · intro ⟨m, hm, hv⟩
    obtain ⟨x, hx, rfl⟩ := (hrun u m).mp hm
    obtain ⟨y, hy, rfl⟩ := (h m v).mp hv
    exact ⟨x ++ y, ⟨x, y, hx, hy, rfl⟩, (List.append_assoc x y v).symm⟩
  · intro ⟨w, ⟨x, y, hx, hy, hw⟩, hu⟩
    subst hw hu
    exact ⟨y ++ v, (hrun _ _).mpr ⟨x, hx, List.append_assoc x y v⟩, (h _ _).mpr ⟨y, hy, rfl⟩⟩

/-- A set of words under a quantifier. -/
def Quantifier.Words (words : List Char → Prop) : Quantifier → List Char → Prop
  | .once, w => words w
  | .optional, w => w = [] ∨ words w
  | .plus, w => ∃ x y, words x ∧ Repeats words y ∧ w = x ++ y
  | .star, w | .lazyStar, w => Repeats words w

theorem repeated_spansWords {r : Regex} {L : List Char → Prop} (h : SpansWords t r L)
    (u v : List Char) :
    Relation.ReflTransGen (r.Spans t) u v ↔ ∃ w, Repeats L w ∧ u = w ++ v := by
  constructor
  · intro hr
    induction hr using Relation.ReflTransGen.head_induction_on with
    | refl => exact ⟨[], .none, rfl⟩
    | head hs _ ih =>
      obtain ⟨x, hx, rfl⟩ := (h _ _).mp hs
      obtain ⟨w, hw, rfl⟩ := ih
      exact ⟨x ++ w, .more hx hw, (List.append_assoc x w v).symm⟩
  · intro ⟨w, hw, hu⟩
    rw [hu]
    clear hu
    induction hw with
    | none => exact .refl
    | more hx _ ih => exact .head ((h _ _).mpr ⟨_, hx, List.append_assoc _ _ _⟩) ih

/-- A group under a quantifier spans the words of its contents under it. -/
theorem SpansWords.grouped {body : Regex} {L : List Char → Prop} (h : SpansWords t body L)
    (q : Quantifier) : SpansWords t (.grouped body q) (q.Words L) := by
  intro u v
  rw [spans_grouped]
  cases q with
  | once => exact h u v
  | optional =>
    constructor
    · intro hs
      rcases hs with rfl | hs
      · exact ⟨[], .inl rfl, rfl⟩
      · obtain ⟨w, hw, hu⟩ := (h u v).mp hs
        exact ⟨w, .inr hw, hu⟩
    · intro ⟨w, hw, hu⟩
      rcases hw with rfl | hw
      · exact .inl hu
      · exact .inr ((h u v).mpr ⟨w, hw, hu⟩)
  | plus =>
    constructor
    · intro ⟨m, hm, hv⟩
      obtain ⟨x, hx, rfl⟩ := (h u m).mp hm
      obtain ⟨y, hy, rfl⟩ := (repeated_spansWords h m v).mp hv
      exact ⟨x ++ y, ⟨x, y, hx, hy, rfl⟩, (List.append_assoc x y v).symm⟩
    · intro ⟨w, ⟨x, y, hx, hy, hw⟩, hu⟩
      subst hw hu
      exact ⟨y ++ v, (h _ _).mpr ⟨x, hx, List.append_assoc x y v⟩,
        (repeated_spansWords h _ _).mpr ⟨y, hy, rfl⟩⟩
  | star => exact repeated_spansWords h u v
  | lazyStar => exact repeated_spansWords h u v

/-- Alternatives span the words of each. -/
theorem spansWords_alternatives {first : Regex} {others : List Regex}
    {sets : List (List Char → Prop)} (hbar : ∀ x ∈ first :: others, x.BarFree)
    (h : List.Forall₂ (SpansWords t) (first :: others) sets) :
    SpansWords t (alternatives first others) fun w => ∃ L ∈ sets, L w := by
  intro u v
  rw [spans_alternatives hbar]
  generalize first :: others = regexes at h
  clear hbar
  induction h with
  | nil => simp
  | cons hr _ ih =>
    simp only [List.mem_cons, exists_eq_or_imp, ih, hr u v]
    constructor
    · intro hs
      rcases hs with ⟨w, hw, hu⟩ | ⟨w, hw, hu⟩
      · exact ⟨w, .inl hw, hu⟩
      · exact ⟨w, .inr hw, hu⟩
    · intro ⟨w, hw, hu⟩
      exact hw.imp (fun hw => ⟨w, hw, hu⟩) fun hw => ⟨w, hw, hu⟩

section Exact

variable (ht : t.rule = .exact)

include ht

theorem accepts_literal_iff (l : Literal) (c : Char) :
    (Single.literal l).accepts t.rule t.dotAll c = true ↔ c = l.char := by
  rw [ht]
  simp [Single.accepts, acceptsChar]

theorem SpansWords.char {rest : Regex} {L : List Char → Prop} (hrest : rest.BarFree)
    (h : SpansWords t rest L) (c : Char) :
    SpansWords t (.char c rest) fun w => ∃ x, L x ∧ w = c :: x := by
  refine (h.single hrest (accepts_literal_iff ht (.quote c))).congr fun w => ?_
  simp

theorem spansWords_chars (cs : List Char) : SpansWords t (chars cs) (· = cs) := by
  induction cs with
  | nil => exact spansWords_done
  | cons c cs ih =>
    have hbar : (chars cs).BarFree :=
      (@Translation.of_chars (fun _ => True) True cs fun _ _ => trivial).barFree
    exact (ih.char ht hbar c).congr fun w => by simp

end Exact

end Regex

/-! ## 4. Parts and pieces -/

namespace Glob

open Regex (SpansWords)

variable {t : Regex.Subject}

theorem dropStars_char {c : Char} (h : c ≠ '*') (rest : Glob) :
    (char c rest).dropStars = char c rest := by
  rw [dropStars.eq_2]
  intro rest' heq
  cases heq
  exact h rfl

/-- The first piece of a pattern behind a star, or behind something else. -/
def firstPiece (d : Char) (afterStar : Bool) (g : Glob) : Glob :=
  if afterStar then (g.splitOn d).1.dropStars else (g.splitOn d).1

/-- The regexes of parts span the words of pieces. -/
structure Rendered (t : Regex.Subject) (ps : Part × List Part) (first : Glob)
    (others : List Glob) : Prop where
  head : SpansWords t ps.1.regex first.Denotes
  tail : List.Forall₂ (fun p g => SpansWords t p.regex g.Denotes) ps.2 others

/-- The contents of a group span the words of its pieces. -/
theorem Rendered.join {d : Char} {body : Glob}
    (h : Rendered t (parts d false body) (body.firstPiece d false) (body.splitOn d).2) :
    SpansWords t (Part.join (parts d false body)) fun w => ∃ piece ∈ body.pieces d, Denotes piece w := by
  obtain ⟨hfirst, hothers⟩ := List.forall_mem_cons.mp (barFree_parts d false body)
  have hbar := List.forall_mem_cons.mpr ⟨hfirst, List.forall_mem_map.mpr hothers⟩
  have hsets : List.Forall₂ (SpansWords t)
      ((parts d false body).1.regex :: (parts d false body).2.map Part.regex)
      ((body.pieces d).map Denotes) := by
    refine .cons h.head ?_
    rw [List.forall₂_map_left_iff, List.forall₂_map_right_iff]
    exact h.tail
  exact (Regex.spansWords_alternatives hbar hsets).congr fun w => by simp

/-- The words of a group, in front of the words of the rest. -/
theorem SpansWords.group {body rest : Regex} {L M : List Char → Prop} (hrest : rest.BarFree)
    (h : SpansWords t body L) (h' : SpansWords t rest M) (q : Regex.Quantifier) :
    SpansWords t (.group .plain body q rest) fun w => ∃ x y, q.Words L x ∧ M y ∧ w = x ++ y :=
  SpansWords.append (r := .grouped body q) Regex.barFree_done hrest (h.grouped q) h'

/-- **A marked group** spans what it denotes. -/
theorem spansWords_marked {c : Char} {body rest : Glob} {p : Part} (hmark : isGroupMark c = true)
    (hneg : c ≠ '!')
    (hbody : Rendered t (parts '|' false body) (body.firstPiece '|' false) (body.splitOn '|').2)
    (hbar : p.regex.BarFree) (hrest : SpansWords t p.regex rest.Denotes) :
    SpansWords t (marked c (Part.join (parts '|' false body)) p)
      (Denotes (char c (group .parens body rest))) := by
  have hgroup (q : Regex.Quantifier) := SpansWords.group hbar hbody.join hrest q
  unfold marked
  simp only
  split
  · exact (hgroup .once).congr fun w => denotes_exactlyOnce.trans denotes_parens
  · refine (hgroup .optional).congr fun w => denotes_atMostOnce.trans ?_
    rw [denotes_parens]
    constructor
    · intro h
      rcases h with h | ⟨x, y, hx, hy, hw⟩
      · exact ⟨[], w, .inl rfl, h, rfl⟩
      · exact ⟨x, y, .inr hx, hy, hw⟩
    · intro ⟨x, y, hx, hy, hw⟩
      rcases hx with rfl | hx
      · exact .inl (hw ▸ hy)
      · exact .inr ⟨x, y, hx, hy, hw⟩
  · exact (hgroup .star).congr fun w => denotes_repeated
  · refine (hgroup .plus).congr fun w => denotes_atLeastOnce.trans ?_
    constructor
    · intro ⟨x, y, hx, hy, hw⟩
      obtain ⟨z, v, hz, hv, rfl⟩ := denotes_repeated.mp hy
      exact ⟨x ++ z, v, ⟨x, z, hx, hz, rfl⟩, hv, by rw [hw, List.append_assoc]⟩
    · intro ⟨x, y, ⟨a, b, ha, hb, hx⟩, hy, hw⟩
      refine ⟨a, b ++ y, ha, denotes_repeated.mpr ⟨b, y, hb, hy, rfl⟩, ?_⟩
      rw [hw, hx, List.append_assoc]
  · rename_i h1 h2 h3 h4
    simp only [isGroupMark, List.mem_cons, List.not_mem_nil, or_false, decide_eq_true_eq] at hmark
    rcases hmark with h | h | h | h | h
    · exact absurd h h2
    · exact absurd h h3
    · exact absurd h h4
    · exact absurd h h1
    · exact absurd h hneg

section Exact

variable (ht : t.rule = .exact)

include ht

/-- A bare character spans what it denotes. -/
theorem spansWords_bare {c : Char} {rest : Glob} {p : Part} (hslash : c ≠ '/')
    (hno : isGroupMark c = true → ¬ rest.OpensGroup) (hbar : p.regex.BarFree)
    (hrest : SpansWords t p.regex (if c = '*' then rest.dropStars else rest).Denotes) :
    SpansWords t (bare c p.regex) (Denotes (char c rest)) := by
  have hwild (c : Char) :
      Regex.Single.notSeparator.accepts t.rule t.dotAll c = true ↔ c ≠ '/' := by
    rw [Regex.accepts_notSeparator, bne_iff_ne]
  unfold bare
  split
  · exact (hrest.single hbar hwild).congr fun w => denotes_anyChar (hno rfl)
  · refine (hrest.singles hbar hwild).congr fun w => (denotes_stars (hno rfl)).trans ?_
    refine exists₂_congr fun x y => and_congr_left fun _ => ?_
    exact ⟨fun h c hc e => h (e ▸ hc), fun h hc => h '/' hc rfl⟩
  · exact absurd rfl hslash
  · rename_i h1 h2 _
    rw [if_neg h2] at hrest
    exact (hrest.char ht hbar c).congr fun w => denotes_char h2 h1 hno

/-- **A group in braces** spans what it denotes. -/
theorem spansWords_braces {body rest : Glob} {p : Part}
    (hbody : Rendered t (parts ',' false body) (body.firstPiece ',' false) (body.splitOn ',').2)
    (hbar : p.regex.BarFree) (hrest : SpansWords t p.regex rest.Denotes) :
    SpansWords t
      ((if (parts ',' false body).2 ≠ [] then
          Regex.grouped (Part.join (parts ',' false body)) .once
        else
          match Range.expand? body.text with
          | some (v :: vs) =>
            Regex.grouped (Regex.alternatives (.chars v) (vs.map Regex.chars)) .once
          | _ => .char '{' ((parts ',' false body).1.regex ++ .char '}' .done)) ++ p.regex)
      (Denotes (group .braces body rest)) := by
  have hcomma : (parts ',' false body).2 = [] ↔ body.hasBare ',' = false := by
    rw [← splitOn_snd_eq_nil, ← List.length_eq_zero_iff, hbody.tail.length_eq,
      List.length_eq_zero_iff]
  split
  · rename_i hne
    have hbare : body.hasBare ',' = true := by
      rw [← Bool.not_eq_false, ← hcomma]
      exact hne
    exact (SpansWords.group hbar hbody.join hrest .once).congr fun w => denotes_choice hbare
  · rename_i hone
    have hbare : body.hasBare ',' = false := hcomma.mp (Decidable.not_not.mp hone)
    split
    · rename_i v vs hvalues
      have hsets : List.Forall₂ (SpansWords t) (.chars v :: vs.map Regex.chars)
          ((v :: vs).map fun x w => w = x) := by
        rw [← List.map_cons, List.forall₂_map_left_iff, List.forall₂_map_right_iff,
          List.forall₂_same]
        exact fun x _ => Regex.spansWords_chars ht x
      have hvaluesBar : ∀ x ∈ .chars v :: vs.map Regex.chars, x.BarFree := by
        rw [← List.map_cons]
        exact List.forall_mem_map.mpr fun x _ =>
          (@Regex.Translation.of_chars (fun _ => True) True x fun _ _ => trivial).barFree
      have hall := Regex.spansWords_alternatives hvaluesBar hsets
      refine (SpansWords.group hbar hall hrest .once).congr fun w =>
        (denotes_value hbare hvalues).trans ?_
      simp [Regex.Quantifier.Words]
    · rename_i hno
      have hnone : Range.expand? body.text = none := by
        cases hexpand : Range.expand? body.text with
        | none => rfl
        | some values =>
          obtain ⟨v, vs, rfl⟩ := List.exists_cons_of_ne_nil (Range.mem_expand? hexpand).1
          exact absurd hexpand (hno v vs)
      have hbarBody := (List.forall_mem_cons.mp (barFree_parts ',' false body)).1
      have hhead : SpansWords t (parts ',' false body).1.regex body.Denotes := by
        have := hbody.head
        rw [firstPiece, splitOn_of_not_hasBare hbare] at this
        exact this
      have hend : (Regex.char '}' .done).BarFree := Regex.barFree_done
      have hclose := Regex.spansWords_done.char ht Regex.barFree_done '}'
      have hinner := (hhead.append hbarBody hend hclose).char ht (hbarBody.append hend) '{'
      have hopen : (Regex.char '{' ((parts ',' false body).1.regex ++ .char '}' .done)).BarFree :=
        hbarBody.append hend
      refine (hinner.append hopen hbar hrest).congr fun w =>
        (denotes_braces hbare hnone).trans ?_
      constructor
      · intro ⟨x, y, hx, hy, hw⟩
        exact ⟨_, y, ⟨_, ⟨x, _, hx, ⟨[], rfl, rfl⟩, rfl⟩, rfl⟩, hy, by simp [hw]⟩
      · intro ⟨_, y, ⟨_, ⟨x, _, hx, ⟨z, hz, hb⟩, ha⟩, h⟩, hy, hw⟩
        subst hz hb ha h hw
        exact ⟨x, y, hx, hy, by simp⟩

/-- A bare character in front of parts spans what it denotes in front of pieces. -/
theorem rendered_place {d c : Char} {afterStar : Bool} {rest : Glob} {ps : Part × List Part}
    (hd : isGroupMark d = false) (hslash : c ≠ '/')
    (hno : (afterStar && c == '*') = false → isGroupMark c = true → ¬ rest.OpensGroup)
    (hbar : ps.1.regex.BarFree)
    (h : Rendered t ps (rest.firstPiece d (c == '*')) (rest.splitOn d).2) :
    Rendered t (place d afterStar c ps) ((char c rest).firstPiece d afterStar)
      ((char c rest).splitOn d).2 := by
  have hstar : d ≠ '*' := by
    intro e
    rw [e] at hd
    exact absurd hd (by decide)
  rw [place_eq]
  by_cases hc : c = d
  · subst hc
    have hfirst : rest.firstPiece c (c == '*') = (rest.splitOn c).1 := by
      rw [firstPiece, beq_false_of_ne hstar]
      exact if_neg Bool.false_ne_true
    rw [hfirst] at h
    have hsplit : (char c rest).splitOn c =
        (done, (rest.splitOn c).1 :: (rest.splitOn c).2) := if_pos rfl
    rw [if_pos rfl, firstPiece, hsplit]
    refine ⟨?_, .cons h.head h.tail⟩
    cases afterStar <;> exact Regex.spansWords_done.congr fun w => denotes_done
  · have hsplit : (char c rest).splitOn d = (char c (rest.splitOn d).1, (rest.splitOn d).2) :=
      if_neg hc
    rw [if_neg hc, firstPiece, hsplit]
    by_cases hrun : (afterStar && c == '*') = true
    · -- the star belongs to the run before it
      obtain ⟨ha, hc'⟩ := Bool.and_eq_true_iff.mp hrun
      rw [if_pos hrun, if_pos ha, eq_of_beq hc']
      refine ⟨?_, h.tail⟩
      have hhead := h.head
      rw [firstPiece, if_pos hc'] at hhead
      exact hhead
    · have hrun := Bool.eq_false_iff.mpr hrun
      have hfirst : (if afterStar = true then (char c (rest.splitOn d).1).dropStars
          else char c (rest.splitOn d).1) = char c (rest.splitOn d).1 := by
        split
        · rename_i ha
          rw [ha, Bool.true_and] at hrun
          exact dropStars_char (ne_of_beq_false hrun) _
        · rfl
      rw [if_neg (by rw [hrun]; exact Bool.false_ne_true), hfirst]
      refine ⟨spansWords_bare ht hslash (fun hm => ?_) hbar ?_, h.tail⟩
      · rw [opensGroup_splitOn]
        exact hno hrun hm
      · have hhead := h.head
        rw [firstPiece] at hhead
        by_cases hs : c = '*'
        · rw [if_pos hs]
          rw [if_pos (beq_iff_eq.mpr hs)] at hhead
          exact hhead
        · rw [if_neg hs]
          rw [if_neg (mt beq_iff_eq.mp hs)] at hhead
          exact hhead

omit ht in
/-- More in front of the first part. -/
theorem Rendered.front {ps : Part × List Part} {p : Part} {first first' : Glob}
    {others : List Glob} (h : Rendered t ps first others)
    (hp : SpansWords t ps.1.regex first.Denotes → SpansWords t p.regex first'.Denotes) :
    Rendered t (p, ps.2) first' others :=
  ⟨hp h.head, h.tail⟩

/-- **The regexes of the parts of a pattern span the words of its pieces.** -/
theorem rendered_parts (d : Char) (afterStar : Bool) (g : Glob) (hd : isGroupMark d = false)
    (hslash : '/' ∉ g.text) (hneg : g.NegationFree) (hnames : g.NamesApart) :
    Rendered t (parts d afterStar g) (g.firstPiece d afterStar) (g.splitOn d).2 := by
  induction d, afterStar, g using parts.induct with
  | case1 d afterStar =>
    refine ⟨?_, .nil⟩
    cases afterStar <;> exact Regex.spansWords_done.congr fun w => denotes_done
  | case2 d afterStar c body rest hmark _ _ _ ihb ihr =>
    simp only [text, Grouping.opener, Grouping.closer, List.mem_cons, List.mem_append,
      not_or] at hslash
    obtain ⟨hm, hrun⟩ := Bool.and_eq_true_iff.mp hmark
    obtain ⟨hno, hnegb, hnegr⟩ := hneg
    have hcd : c ≠ d := by
      intro e
      rw [e, hd] at hm
      exact Bool.false_ne_true hm
    have hsplit : (char c (group .parens body rest)).splitOn d =
        (char c (group .parens body (rest.splitOn d).1), (rest.splitOn d).2) := if_neg hcd
    have hfirst : (char c (group .parens body rest)).firstPiece d afterStar =
        char c (group .parens body (rest.splitOn d).1) := by
      rw [firstPiece, hsplit]
      split
      · rename_i ha
        rw [ha] at hrun
        exact dropStars_char (by simpa using hrun) _
      · rfl
    rw [parts, if_pos hmark, hfirst, hsplit]
    have hbar := (List.forall_mem_cons.mp (barFree_parts d false rest)).1
    have hbody := ihb rfl hslash.2.1.2 hnegb hnames.1
    refine (ihr hd hslash.2.2.2 hnegr hnames.2).front fun hp => ?_
    exact spansWords_marked hm (fun e => hno e trivial) hbody hbar hp
  | case3 d afterStar c body rest hmark ih =>
    have hslash' : '/' ≠ c ∧ '/' ∉ (group .parens body rest).text := by
      rw [text, List.mem_cons, not_or] at hslash
      exact hslash
    have hih := ih hd hslash'.2 hneg.2 hnames
    have hbar := (List.forall_mem_cons.mp (barFree_parts d false (group .parens body rest))).1
    rw [parts, if_neg hmark]
    refine rendered_place ht hd (Ne.symm hslash'.1) (fun hrun hm => ?_) hbar ?_
    · rw [hm, hrun] at hmark
      exact absurd rfl hmark
    · have hfirst (a : Bool) : (group .parens body rest).firstPiece d a =
          group .parens body (rest.splitOn d).1 := by
        cases a <;> rfl
      rw [hfirst] at hih ⊢
      exact hih
  | case4 d afterStar c rest hno ih =>
    have hslash' : '/' ≠ c ∧ '/' ∉ rest.text := by
      rw [text, List.mem_cons, not_or] at hslash
      exact hslash
    have hbar := (List.forall_mem_cons.mp (barFree_parts d (c == '*') rest)).1
    rw [parts.eq_3 _ _ _ _ hno]
    refine rendered_place ht hd (Ne.symm hslash'.1) (fun _ _ hopen => ?_) hbar
      (ih hd hslash'.2 hneg.2 hnames)
    obtain ⟨body, rest', hrest⟩ := opensGroup_iff.mp hopen
    exact hno body rest' hrest
  | case5 d afterStar c rest _ _ _ ih =>
    simp only [text, List.mem_cons, not_or] at hslash
    have hbar := (List.forall_mem_cons.mp (barFree_parts d false rest)).1
    have hfirst : (escaped c rest).firstPiece d afterStar = escaped c (rest.splitOn d).1 := by
      cases afterStar <;> rfl
    rw [parts, hfirst]
    refine (ih hd hslash.2.2 hneg hnames).front fun hp => ?_
    exact (hp.char ht hbar c).congr fun w => denotes_escaped
  | case6 d afterStar body rest _ _ _ ih =>
    simp only [text, List.mem_cons, List.mem_append, not_or] at hslash
    have hbar := (List.forall_mem_cons.mp (barFree_parts d false rest)).1
    have hfirst : (bracket body rest).firstPiece d afterStar = bracket body (rest.splitOn d).1 := by
      cases afterStar <;> rfl
    rw [parts, hfirst]
    refine (ih hd hslash.2.2 hneg hnames.2).front fun hp => ?_
    refine (hp.single hbar fun c => ?_).congr fun w => denotes_bracket
    rw [ht]
    exact Bracket.accepts_item_iff hnames.1 t.dotAll c
  | case7 d afterStar body rest _ _ _ ihb ihr =>
    simp only [text, Grouping.opener, Grouping.closer, List.mem_cons, List.mem_append,
      not_or] at hslash
    have hbar := (List.forall_mem_cons.mp (barFree_parts d false rest)).1
    have hbody := ihb rfl hslash.1.2 hneg.1 hnames.1
    have hfirst : (group .parens body rest).firstPiece d afterStar =
        group .parens body (rest.splitOn d).1 := by
      cases afterStar <;> rfl
    rw [parts, hfirst]
    refine (ihr hd hslash.2.2 hneg.2 hnames.2).front fun hp => ?_
    exact (SpansWords.group hbar hbody.join hp .once).congr fun w => denotes_parens
  | case8 d afterStar body rest _ _ _ ihb ihr =>
    simp only [text, Grouping.opener, Grouping.closer, List.mem_cons, List.mem_append,
      not_or] at hslash
    have hbar := (List.forall_mem_cons.mp (barFree_parts d false rest)).1
    have hbody := ihb rfl hslash.1.2 hneg.1 hnames.1
    have hfirst : (group .braces body rest).firstPiece d afterStar =
        group .braces body (rest.splitOn d).1 := by
      cases afterStar <;> rfl
    rw [parts, hfirst]
    refine (ihr hd hslash.2.2 hneg.2 hnames.2).front fun hp => ?_
    exact spansWords_braces ht hbody hbar hp

end Exact

end Glob

/-! ## 5. Compiled patterns -/

/-- A pattern without bare separators that is no globstar has one segment. -/
theorem Segmentation.middle_of_not_hasBare {dot : Bool} {pattern : List Char}
    (hdir : currentDirectory? pattern = none) (hbare : (Glob.read pattern).hasBare '/' = false)
    (hstars : ¬ (Glob.read pattern).IsGlobstar) :
    middle dot pattern = ((Glob.read pattern).segment dot).regex := by
  have hkind := mt (Glob.kind_segment dot (Glob.read pattern)).mp hstars
  have hfold : Segment.fold (.wholeSegment dot) [(Glob.read pattern).segment dot] =
      [(Glob.read pattern).segment dot] := by
    simp [Segment.fold, Segment.foldRight, hkind]
  simp only [middle, leading, body, plainSegments, hdir, Option.getD_none,
    Glob.splitOn_of_not_hasBare hbare, List.map_cons, List.map_nil, hfold]
  rfl

theorem Segmentation.middle_of_one_segment {dot : Bool} {pattern : List Char}
    (hslash : '/' ∉ pattern) (hstars : ¬ (Glob.read pattern).IsGlobstar) :
    middle dot pattern = ((Glob.read pattern).segment dot).regex :=
  middle_of_not_hasBare (currentDirectory?_eq_none (.inr hslash))
    (Glob.hasBare_of_not_mem_text (by rwa [Glob.text_read])) hstars

/-- The only part of a pattern without separators spans the words of the pattern. -/
theorem Glob.spansWords_part {t : Regex.Subject} (ht : t.rule = .exact) {g : Glob}
    (hslash : '/' ∉ g.text) (hneg : g.NegationFree) (hnames : g.NamesApart) :
    Regex.SpansWords t (Glob.parts '/' false g).1.regex g.Denotes := by
  have hwords := (Glob.rendered_parts ht '/' false g rfl hslash hneg hnames).head
  have hfirst : g.firstPiece '/' false = g :=
    congrArg Prod.fst (Glob.splitOn_of_not_hasBare (Glob.hasBare_of_not_mem_text hslash))
  rwa [hfirst] at hwords

/-- Where case counts and wildcards match leading dots, a compiled pattern of one segment that is no
    globstar accepts what its only part spans. -/
theorem CompiledGlob.isFoundIn_iff_part {pattern : List Char} {options : Option MatchOptions}
    {negated : Option Bool} {serial : Nat} {g : CompiledGlob}
    (hdot : MatchOptions.matchesDot options = true) (hcase : g.regex.flags.ignoreCase = false)
    (hslash : '/' ∉ pattern) (hstars : ¬ (Glob.read pattern).IsGlobstar)
    (h : CompiledGlob.ofPattern pattern options negated serial = .ok g) (c : List Char) :
    g.isFoundIn c = true ↔ (Glob.parts '/' false (Glob.read pattern)).1.regex.Spans
      (g.regex.flags.subject c) c [] := by
  obtain ⟨-, hfound⟩ := CompiledGlob.isFoundIn_ofPattern h
  have hregex : (Segmentation.middle (MatchOptions.matchesDot options) pattern).compared
      g.regex.flags = (Glob.parts '/' false (Glob.read pattern)).1.regex := by
    rw [Regex.compared, hcase, hdot, Segmentation.middle_of_one_segment hslash hstars,
      Glob.segment_of_not_isGlobstar true hstars]
    rfl
  rw [hfound, hregex]

/-- Where case counts and wildcards match leading dots, a compiled pattern of one segment accepts
    its words. -/
theorem CompiledGlob.isFoundIn_iff_word {pattern : List Char} {options : Option MatchOptions}
    {negated : Option Bool} {serial : Nat} {g : CompiledGlob}
    (hdot : MatchOptions.matchesDot options = true) (hcase : g.regex.flags.ignoreCase = false)
    (hslash : '/' ∉ pattern) (hstars : ¬ (Glob.read pattern).IsGlobstar)
    (hneg : (Glob.read pattern).NegationFree) (hnames : (Glob.read pattern).NamesApart)
    (h : CompiledGlob.ofPattern pattern options negated serial = .ok g) (c : List Char) :
    g.isFoundIn c = true ↔ (Glob.read pattern).Denotes c := by
  have hrule : (g.regex.flags.subject c).rule = .exact := by
    rw [Regex.Flags.subject, Regex.Flags.caseRule, hcase]
    rfl
  have hwords := Glob.spansWords_part hrule (by rwa [Glob.text_read]) hneg hnames
  rw [isFoundIn_iff_part hdot hcase hslash hstars h, hwords]
  simp

/-- **A compiled pattern of one segment accepts exactly the words that it denotes.** -/
theorem CompiledGlob.isFoundIn_iff_denotes {pattern : List Char} {options : Option MatchOptions}
    {negated : Option Bool} {serial : Nat} {g : CompiledGlob}
    (hdot : MatchOptions.matchesDot options = true)
    (hflags : MatchOptions.regexFlags options = .ok {})
    (hslash : '/' ∉ pattern) (hstars : ¬ (Glob.read pattern).IsGlobstar)
    (hneg : (Glob.read pattern).NegationFree) (hnames : (Glob.read pattern).NamesApart)
    (h : CompiledGlob.ofPattern pattern options negated serial = .ok g) (c : List Char) :
    g.isFoundIn c = true ↔ (Glob.read pattern).Denotes c := by
  obtain ⟨hf, -⟩ := CompiledGlob.isFoundIn_ofPattern h
  have hflags' : g.regex.flags = {} := by
    rw [hflags] at hf
    exact (Except.ok.inj hf).symm
  exact isFoundIn_iff_word hdot (by rw [hflags']) hslash hstars hneg hnames h c

theorem CompiledGlob.isFoundIn_iff_denotes_mixed :
    ∃ g, CompiledGlob.ofPattern "+(a|[b-d])\\*{1..2}*".toList (some { dot := true }) none 0 = .ok g ∧
      (g.isFoundIn "acb*2.t".toList = true ↔
        (Glob.read "+(a|[b-d])\\*{1..2}*".toList).Denotes "acb*2.t".toList) := by
  have h : CompiledGlob.ofPattern "+(a|[b-d])\\*{1..2}*".toList (some { dot := true }) none 0 = .ok _ :=
    rfl
  exact ⟨_, h, isFoundIn_iff_denotes rfl rfl (by decide) (by decide) (by decide) (by decide) h _⟩

end Wildcard
