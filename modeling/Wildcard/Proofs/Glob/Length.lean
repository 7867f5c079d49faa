import Mathlib.Algebra.Order.BigOperators.Group.List
import Mathlib.Algebra.Order.Group.Nat
import Wildcard.Proofs.Glob.Pieces
import Wildcard.Proofs.Glob.Recognition

/-!
# How long the regex of a part is

A part of a pattern is written with a bounded number of characters for each of its own. Most of a
pattern is written as a few characters for each, and a range is written as its values, of which
there are at most `maxValues`, each shorter than the range. Only a negated group writes something
twice: the rest of its part, which it looks at, and which then stands behind it. But it does so only
if no other negated group begins in that rest, so nothing is written three times, however negated
groups are chained or nested.

* `Range.length_values`: the values of a range; `length_expanded`: these with bars between them.
* `Part.IsShort`: the bound for a part, with and without negated groups.
* `Part.IsShort.append`, `Part.IsShort.wrap`, `Part.IsShort.negated`: how parts are made of others.
* `short_parts`: all parts of all patterns are short.
* `length_guard_le`, `length_segment_le`: segments, and guards, which write alternatives again.
-/

namespace Wildcard

/-! ## 1. The length of a regex -/

namespace Regex

/-- How many characters a regex is written with. -/
def length (r : Regex) : Nat := r.text.length

@[simp] theorem length_done : done.length = 0 := rfl

@[simp] theorem length_single (s : Single) (q : Quantifier) (rest : Regex) :
    (single s q rest).length = s.text.length + q.text.length + rest.length := by
  simp [length, text, Nat.add_assoc]

@[simp] theorem length_anchor (a : Anchor) (rest : Regex) :
    (anchor a rest).length = a.text.length + rest.length := by
  simp [length, text]

@[simp] theorem length_group (k : GroupKind) (body : Regex) (q : Quantifier) (rest : Regex) :
    (group k body q rest).length = body.length + q.text.length + rest.length + 4 := by
  have hopening : k.text.length = 3 := by cases k <;> rfl
  simp [length, text, hopening]
  omega

theorem Quantifier.length_text_le (q : Quantifier) : q.text.length ≤ 2 := by cases q <;> decide

@[simp] theorem length_grouped (body : Regex) (q : Quantifier) :
    (grouped body q).length = body.length + q.text.length + 4 := length_group _ _ _ _

@[simp] theorem length_bar (rest : Regex) : (bar rest).length = rest.length + 1 := rfl

@[simp] theorem length_append (r s : Regex) : (r ++ s).length = r.length + s.length := by
  simp [length]

theorem Literal.length_quote_le (c : Char) : (quote c).text.length ≤ 2 := by
  unfold quote
  split
  · exact Nat.le_refl 2
  · exact Nat.le_succ 1

theorem Literal.length_member_le (c : Char) : (member c).text.length ≤ 2 := by
  unfold member
  split
  · exact Nat.le_refl 2
  · exact Nat.le_succ 1

theorem length_char_le (c : Char) (rest : Regex) : (char c rest).length ≤ rest.length + 2 := by
  have hquote := Literal.length_quote_le c
  simp only [char, length_single, Single.text, Quantifier.text, List.length_nil]
  omega

theorem length_separator (rest : Regex) : (separator rest).length = rest.length + 2 := by
  rw [separator, length_single, Nat.add_comm]
  rfl

/-- Alternatives are as long as they are together, with a bar between any two. -/
theorem length_alternatives (r : Regex) (rs : List Regex) :
    (alternatives r rs).length + 1 = ((r :: rs).map (·.length + 1)).sum := by
  induction rs generalizing r with
  | nil => rfl
  | cons s rs ih =>
    have ih := ih s
    rw [List.map_cons, List.sum_cons, ← ih]
    simp only [alternatives, length_append, length_bar]
    omega

/-- Fewer alternatives are not longer. -/
theorem length_alternatives_le_of_sublist {r s : Regex} {rs ss : List Regex}
    (h : (r :: rs).Sublist (s :: ss)) :
    (alternatives r rs).length ≤ (alternatives s ss).length := by
  have hsum := List.Sublist.sum_le_sum (h.map (·.length + 1)) fun _ _ => Nat.zero_le _
  rw [← length_alternatives, ← length_alternatives] at hsum
  exact Nat.le_of_succ_le_succ hsum

end Regex

/-! ## 2. Ranges -/

namespace Range

open Regex (Literal)

/-- A digit of ASCII is written as itself. -/
theorem text_quote_of_isDigit {c : Char} (h : c.isDigit = true) : (Literal.quote c).text = [c] := by
  have hplain : Literal.isSpecial c = false := by
    refine decide_eq_false fun hmem => ?_
    have hno : ['(', ')', '[', ']', '\x7b', '\x7d', '?', '*', '+', '-', '|', '^', '$', '\\', '.',
      '&', '~', '#', ' ', '\t', '\n', '\r', '\x0b', '\x0c'].all (!·.isDigit) = true := rfl
    have hdigit := List.all_eq_true.mp hno c hmem
    rw [h] at hdigit
    cases hdigit
  rw [Literal.quote, hplain]
  rfl

theorem length_chars_of_isDigit {cs : List Char} (h : ∀ c ∈ cs, c.isDigit = true) :
    (Regex.chars cs).length = cs.length := by
  induction cs with
  | nil => rfl
  | cons c cs ih =>
    obtain ⟨hc, hcs⟩ := List.forall_mem_cons.mp h
    change (Regex.char c (Regex.chars cs)).length = _
    rw [Regex.char, Regex.length_single, ih hcs, Regex.Single.text, text_quote_of_isDigit hc]
    simp only [Regex.Quantifier.text, List.length_cons, List.length_nil]
    omega

/-- Of an integer only the sign is escaped. -/
theorem length_chars_filled_le (width : Nat) (v : Int) :
    (Regex.chars (filled width v)).length ≤ (filled width v).length + 1 := by
  unfold filled
  simp only
  split
  · have hdigits := length_chars_of_isDigit
      (@isDigit_of_mem_zeros (width - ((decimal v.natAbs).length + 1)) v.natAbs)
    have hsign := Regex.length_char_le '-' (Regex.chars
      (List.replicate (width - ((decimal v.natAbs).length + 1)) '0' ++ decimal v.natAbs))
    rw [hdigits] at hsign
    exact hsign
  · rw [length_chars_of_isDigit isDigit_of_mem_zeros]
    exact Nat.le_succ _

theorem count_le (first last : Int) (step : Nat) :
    count first last step ≤ (first - last).natAbs + 1 :=
  Nat.succ_le_succ (Nat.div_le_self _ _)

theorem Numeral.IsWritten.length_pos {n : Numeral} (h : n.IsWritten) : 0 < n.text.length := by
  have hdigits := List.length_pos_iff.mpr h.filled
  unfold Numeral.text
  split
  · exact Nat.succ_pos _
  · exact hdigits

/-- **The values of a range** are not too many, and each of them is shorter than the range, even
    with its sign escaped. -/
theorem length_values {cs : List Char} {vs : List (List Char)} (h : expand? cs = some vs) :
    vs.length ≤ maxValues ∧ ∀ v ∈ vs, (Regex.chars v).length < cs.length := by
  obtain ⟨s, hread, hs⟩ := Option.bind_eq_some_iff.mp h
  obtain ⟨hwritten, ending, -, rfl⟩ := Spelled.read?_eq_some_iff.mp hread
  cases s with
  | numbers first last step =>
    obtain ⟨hfirst, hlast, -⟩ := hwritten
    have hfirstPos := hfirst.length_pos
    have hlastPos := hlast.length_pos
    unfold Spelled.expand? at hs
    simp only at hs
    split at hs
    · cases hs
    · rename_i hcount
      cases hs
      refine ⟨by simpa [values_eq] using hcount, List.forall_mem_map.mpr fun v hv => ?_⟩
      have hquoted := length_chars_filled_le (width first last) v
      have hplain := length_filled_zero_le_max hfirst hlast (mem_values_bounds hv)
      have hwidth : width first last ≤ max first.text.length last.text.length := by
        unfold width
        split
        · exact Nat.le_refl _
        · exact Nat.zero_le _
      rw [length_filled] at hquoted
      change (Regex.chars (filled (width first last) v)).length < _
      simp only [Spelled.text, written, List.length_append, List.length_cons]
      omega
  | letters first last step =>
    obtain ⟨hfirst, hlast, -⟩ := hwritten
    have hfirst := letter_bounds hfirst
    have hlast := letter_bounds hlast
    have hcount := count_le first.toNat last.toNat (stepLength step)
    cases hs
    refine ⟨?_, List.forall_mem_map.mpr fun v _ => ?_⟩
    · rw [List.length_map, values_eq, List.length_map, List.length_range, maxValues]
      omega
    · have hquoted := Regex.length_char_le (Char.ofNat v.toNat) .done
      change (Regex.char (Char.ofNat v.toNat) .done).length < _
      simp only [Spelled.text, writtenLetters, List.length_append, List.length_cons]
      simp only [Regex.length_done] at hquoted
      omega

end Range

/-! ## 3. Classes -/

namespace Bracket

open Regex (Literal Single)

theorem length_namedClasses :
    ∀ e ∈ namedClasses, (e.2.flatMap Literal.text).length ≤ 15 := by
  decide

/-- What the members of a class are written as. The longest name for its length is that of the
    marks of punctuation. -/
theorem length_itemsFrom_le (n : Nat) (p : Position) (cs : List Char) :
    ((itemsFrom n p cs).flatMap Literal.text).length ≤ 15 * cs.length := by
  fun_induction itemsFrom n p cs with
  | case1 => exact Nat.zero_le _
  | case2 n p c rest ih =>
    rw [List.length_cons]
    omega
  | case3 p c rest ih =>
    have hmember := Literal.length_member_le c
    simp only [List.flatMap_cons, List.length_append, List.length_cons]
    omega
  | case4 p c rest _ literals n hn ih =>
    split at hn
    · obtain ⟨e, he, rfl⟩ := mem_namedClasses hn
      have hname := length_namedClasses e he
      simp only [List.flatMap_append, List.length_append, List.length_cons]
      omega
    · cases hn
  | case5 p c rest _ _ ih =>
    have hmember := Literal.length_member_le c
    simp only [List.flatMap_cons, List.length_append, List.length_cons]
    split
    · simp only [Literal.text, List.length_singleton]
      omega
    · omega

theorem length_item_le (body : List Char) : (item body).text.length ≤ 15 * body.length + 4 := by
  unfold item
  split
  · have hitems := length_itemsFrom_le 0 .first body
    simp only [Single.text, List.length_cons, List.length_append, List.length_nil]
    omega
  · have hitems := length_itemsFrom_le 0 .first (body.drop 1)
    have hdrop : (body.drop 1).length ≤ body.length := by simp
    simp only [Single.text, List.flatMap_append, List.flatMap_cons, List.flatMap_nil, Literal.text,
      List.length_cons, List.length_append, List.length_nil]
    omega

end Bracket

/-! ## 4. Parts -/

namespace Glob

open Regex (grouped alternatives)

/-- How many characters a text may be written with in a regex where nothing is written twice: for
    each of its characters as many as a range has values. -/
def allowance (cs : List Char) : Nat := Range.maxValues * cs.length

@[simp] theorem allowance_nil : allowance [] = 0 := rfl

@[simp] theorem allowance_cons (c : Char) (cs : List Char) :
    allowance (c :: cs) = allowance cs + 1000 := rfl

@[simp] theorem allowance_append (cs cs' : List Char) :
    allowance (cs ++ cs') = allowance cs + allowance cs' := by
  rw [allowance, List.length_append, Nat.mul_add]
  rfl

/-- A range is written as its values, within the allowance of its text. -/
theorem length_expanded {cs v : List Char} {vs : List (List Char)}
    (h : Range.expand? cs = some (v :: vs)) :
    (alternatives (.chars v) (vs.map Regex.chars)).length < allowance cs := by
  obtain ⟨hcount, hshort⟩ := Range.length_values h
  have hsum := Regex.length_alternatives (.chars v) (vs.map Regex.chars)
  have hbound : ((Regex.chars v :: vs.map Regex.chars).map (·.length + 1)).sum ≤
      (v :: vs).length * cs.length := by
    have hle := List.sum_le_card_nsmul
      ((Regex.chars v :: vs.map Regex.chars).map (·.length + 1)) cs.length ?_
    · simpa using hle
    · rw [← List.map_cons, List.map_map]
      exact List.forall_mem_map.mpr hshort
  have hmany := Nat.mul_le_mul_right cs.length hcount
  unfold allowance
  omega

/-- A part is written within its allowance, or twice that if it holds the beginning of a negated
    group. -/
structure Part.IsShort (p : Part) : Prop where
  twice : p.regex.length ≤ 2 * allowance p.text
  once : p.holdsNegation = false → p.regex.length ≤ allowance p.text

namespace Part

/-- What holds no beginning of a negated group holds none in a stretch of it. -/
theorem holdsNegation_eq_false {p q : Part} (hin : p.text <:+: q.text)
    (h : q.holdsNegation = false) : p.holdsNegation = false := by
  rw [← Bool.not_eq_true, holdsNegation, occursIn_iff] at h ⊢
  exact fun hp => h (hp.trans hin)

theorem IsShort.of_le {p : Part} (h : p.regex.length ≤ allowance p.text) : p.IsShort :=
  ⟨by omega, fun _ => h⟩

/-- One short part behind another. -/
theorem IsShort.append {p q : Part} (hp : p.IsShort) (hq : q.IsShort) :
    (⟨p.regex ++ q.regex, p.text ++ q.text⟩ : Part).IsShort := by
  have htwice := hp.twice
  have htwice' := hq.twice
  refine ⟨?_, fun hno => ?_⟩
  · simp only [Regex.length_append, allowance_append]
    omega
  · have honce := hp.once (holdsNegation_eq_false (List.prefix_append _ _).isInfix hno)
    have honce' := hq.once (holdsNegation_eq_false (List.suffix_append _ _).isInfix hno)
    simp only [Regex.length_append, allowance_append]
    omega

/-- A short part with more around it that is within its own allowance. -/
theorem IsShort.wrap {p : Part} (h : p.IsShort) {r : Regex} {front back : List Char}
    (hr : r.length ≤ p.regex.length + allowance (front ++ back)) :
    (⟨r, front ++ p.text ++ back⟩ : Part).IsShort := by
  have htwice := h.twice
  rw [allowance_append] at hr
  refine ⟨?_, fun hno => ?_⟩
  · simp only [allowance_append]
    omega
  · have honce := h.once (holdsNegation_eq_false (List.infix_append _ _ _) hno)
    simp only [allowance_append]
    omega

theorem IsShort.before {p : Part} (h : p.IsShort) {cs : List Char} {f : Regex → Regex}
    (hf : (f p.regex).length ≤ p.regex.length + allowance cs) : (p.before cs f).IsShort := by
  have hwrap := @IsShort.wrap p h (f p.regex) cs [] (by rwa [List.append_nil])
  rwa [List.append_nil] at hwrap

/-- A short part as a group, with something in front of it in the text and a closer behind. -/
theorem IsShort.group {p : Part} (h : p.IsShort) (q : Regex.Quantifier) (front : List Char)
    (closer : Char) : (⟨grouped p.regex q, front ++ p.text ++ [closer]⟩ : Part).IsShort := by
  refine h.wrap ?_
  have hquantifier := q.length_text_le
  simp only [Regex.length_grouped, allowance_append, allowance_cons, allowance_nil]
  omega

/-- **A negated group**, whose contents are short, in front of a short rest: either there is a
    negated group in the rest, and it is written once, or there is none, and it is shorter. -/
theorem IsShort.negated {contents rest : Part} (hcontents : contents.IsShort)
    (hrest : rest.IsShort) :
    (⟨marked '!' contents.regex rest, '!' :: '(' :: contents.text ++ ')' :: rest.text⟩ :
      Part).IsShort := by
  have hbody := hcontents.twice
  have htwice := hrest.twice
  refine ⟨?_, fun hno => ?_⟩
  · have htail : (if rest.holdsNegation then Regex.done else rest.regex).length +
        rest.regex.length ≤ 2 * allowance rest.text := by
      cases hneg : rest.holdsNegation with
      | true => simpa using htwice
      | false =>
        have honce := hrest.once hneg
        simp only [Bool.false_eq_true, if_false]
        omega
    have hend : Regex.segmentEnd.length = 9 := rfl
    have hany : Regex.Single.notSeparator.text.length = 4 := rfl
    simp only [marked_negated, Regex.exceptFor, Regex.length_group, Regex.length_single,
      Regex.length_append, Regex.length_done, Regex.Quantifier.text, List.length_nil,
      List.length_cons, hend, hany, allowance_append, allowance_cons]
    omega
  · have hholds : ['!', '('] <:+: '!' :: '(' :: contents.text ++ ')' :: rest.text :=
      ⟨[], contents.text ++ ')' :: rest.text, rfl⟩
    rw [holdsNegation, ← Bool.not_eq_true, occursIn_iff] at hno
    exact absurd hholds hno

end Part

variable {d : Char}

/-- Some parts are short. -/
def AreShort (ps : Part × List Part) : Prop := ∀ p ∈ ps.1 :: ps.2, p.IsShort

theorem AreShort.front {ps : Part × List Part} (h : AreShort ps) {p : Part}
    (hp : ps.1.IsShort → p.IsShort) : AreShort (p, ps.2) := by
  obtain ⟨hfirst, hothers⟩ := List.forall_mem_cons.mp h
  exact List.forall_mem_cons.mpr ⟨hp hfirst, hothers⟩

/-- The alternatives of parts keep within a multiple of the allowance if the parts do: each bar
    stands for a delimiter. -/
theorem length_join_le {w : Nat} (hw : 0 < w) (d : Char) {p : Part} {ps : List Part}
    (h : ∀ q ∈ p :: ps, q.regex.length ≤ w * allowance q.text) :
    (Part.join (p, ps)).length ≤ w * allowance (p.text ++ ps.flatMap fun q => d :: q.text) := by
  induction ps generalizing p with
  | nil => simpa [Part.join, alternatives] using h
  | cons q ps ih =>
    obtain ⟨hp, hrest⟩ := List.forall_mem_cons.mp h
    have ih := ih hrest
    have hjoin : Part.join (p, q :: ps) = p.regex ++ .bar (Part.join (q, ps)) := rfl
    rw [hjoin]
    simp only [Regex.length_append, Regex.length_bar, List.flatMap_cons, List.cons_append,
      allowance_append, allowance_cons, Nat.mul_add] at ih ⊢
    omega

/-- A part is a stretch of its pattern. -/
theorem infix_text_parts {afterStar : Bool} {g : Glob} {p : Part}
    (h : p ∈ (parts d afterStar g).1 :: (parts d afterStar g).2) : p.text <:+: g.text := by
  rw [← text_parts d afterStar g]
  rcases List.mem_cons.mp h with rfl | h
  · exact (List.prefix_append _ _).isInfix
  · have hin := List.infix_of_mem_flatten (List.mem_map_of_mem (f := fun q => d :: q.text) h)
    exact ((List.suffix_cons d p.text).isInfix.trans hin).trans (List.suffix_append _ _).isInfix

/-- The parts of a pattern, with bars between them, are as short as a part. -/
theorem AreShort.join {afterStar : Bool} {g : Glob} (h : AreShort (parts d afterStar g)) :
    (⟨Part.join (parts d afterStar g), g.text⟩ : Part).IsShort := by
  refine ⟨?_, fun hno => ?_⟩
  · have hjoin := length_join_le (w := 2) (by decide) d fun q hq => (h q hq).twice
    rwa [text_parts] at hjoin
  · have hjoin := length_join_le (w := 1) (by decide) d fun q hq => by
      rw [Nat.one_mul]
      exact (h q hq).once (Part.holdsNegation_eq_false (infix_text_parts hq) hno)
    rwa [text_parts, Nat.one_mul] at hjoin

theorem length_bare_le (c : Char) (rest : Regex) : (bare c rest).length ≤ rest.length + 6 := by
  have hwild (q : Regex.Quantifier) :
      (Regex.single .notSeparator q rest).length ≤ rest.length + 6 := by
    have hany : Regex.Single.notSeparator.text.length = 4 := rfl
    have hquantifier := q.length_text_le
    rw [Regex.length_single, hany]
    omega
  have hsep := Regex.length_separator rest
  have hchar := Regex.length_char_le c rest
  unfold bare
  split
  · exact hwild .once
  · exact hwild .star
  · omega
  · omega

theorem short_place {afterStar : Bool} {c : Char} {ps : Part × List Part} (h : AreShort ps) :
    AreShort (place d afterStar c ps) := by
  rw [place_eq]
  split
  · exact List.forall_mem_cons.mpr ⟨.of_le (Nat.zero_le _), h⟩
  · split
    · exact h.front fun hp => hp.before (Nat.le_add_right _ _)
    · refine h.front fun hp => hp.before ?_
      have hbare := length_bare_le c ps.1.regex
      simp only [allowance_cons, allowance_nil]
      omega

/-- A marked group of short contents, in front of a short rest. -/
theorem short_marked {c : Char} (hc : isGroupMark c = true) {contents rest : Part}
    (hcontents : contents.IsShort) (hrest : rest.IsShort) :
    (⟨marked c contents.regex rest, c :: '(' :: contents.text ++ ')' :: rest.text⟩ :
      Part).IsShort := by
  by_cases hneg : c = '!'
  · rw [hneg]
    exact hcontents.negated hrest
  · have hgroup := (hcontents.group (quantifierOf c) [c, '('] ')').append hrest
    simp only [List.append_assoc] at hgroup
    rw [marked_of_ne hc hneg]
    exact hgroup

/-- What stands for a group in braces is short if its contents are. -/
theorem short_braces {body : Glob} (hbody : AreShort (parts ',' false body)) :
    (⟨if (parts ',' false body).2 ≠ [] then grouped (Part.join (parts ',' false body)) .once
      else
        match Range.expand? body.text with
        | some (v :: vs) => grouped (alternatives (.chars v) (vs.map Regex.chars)) .once
        | _ => .char '{' ((parts ',' false body).1.regex ++ .char '}' .done),
      ['{'] ++ body.text ++ ['}']⟩ : Part).IsShort := by
  have hcontents := hbody.join
  split
  · exact hcontents.group .once ['{'] '}'
  · rename_i hone
    split
    · rename_i v vs hv
      refine .of_le ?_
      have hvalues := length_expanded hv
      simp only [Regex.length_grouped, Regex.Quantifier.text, List.length_nil, allowance_append,
        allowance_cons, allowance_nil]
      omega
    · refine hcontents.wrap ?_
      have hjoin : Part.join (parts ',' false body) = (parts ',' false body).1.regex := by
        rw [Part.join, not_not.mp hone]
        rfl
      have hopen := Regex.length_char_le '{'
        ((parts ',' false body).1.regex ++ .char '}' .done)
      have hclose := Regex.length_char_le '}' .done
      simp only [hjoin, Regex.length_append, Regex.length_done, allowance_append, allowance_cons,
        allowance_nil] at hopen hclose ⊢
      omega

/-- **The parts of every pattern are short.** -/
theorem short_parts (d : Char) (afterStar : Bool) (g : Glob) : AreShort (parts d afterStar g) := by
  induction d, afterStar, g using parts.induct with
  | case1 d afterStar => exact List.forall_mem_singleton.mpr (.of_le (Nat.zero_le _))
  | case2 d afterStar c body rest hmark _ _ _ ihb ihr =>
    rw [parts, if_pos hmark]
    have hmark' : isGroupMark c = true := (Bool.and_eq_true_iff.mp hmark).1
    exact ihr.front fun hp => short_marked hmark' ihb.join hp
  | case3 d afterStar c body rest hmark ih =>
    rw [parts, if_neg hmark]
    exact short_place ih
  | case4 d afterStar c rest hno ih =>
    rw [parts.eq_3 _ _ _ _ hno]
    exact short_place ih
  | case5 d afterStar c rest _ _ _ ih =>
    rw [parts]
    refine ih.front fun hp => hp.before ?_
    have hchar := Regex.length_char_le c (parts d false rest).1.regex
    simp only [allowance_cons, allowance_nil]
    omega
  | case6 d afterStar body rest _ _ _ ih =>
    rw [parts]
    refine ih.front fun hp => hp.before ?_
    have hitem := Bracket.length_item_le body
    have hbody : 15 * body.length ≤ allowance body := Nat.mul_le_mul_right _ (by decide)
    simp only [Regex.length_single, Regex.Quantifier.text, List.length_nil, List.cons_append,
      allowance_append, allowance_cons, allowance_nil]
    omega
  | case7 d afterStar body rest _ _ _ ihb ihr =>
    rw [parts]
    exact ihr.front fun hp => (ihb.join.group .once ['('] ')').append hp
  | case8 d afterStar body rest _ _ _ ihb ihr =>
    rw [parts]
    exact ihr.front fun hp => (short_braces ihb).append hp

/-! ## 5. Segments -/

/-- A guard is not longer than twice the allowance: it writes some of the alternatives of the first
    group once more. -/
theorem length_guard_le (g : Glob) : g.guard.length ≤ 2 * allowance g.text := by
  have hplain : (Regex.notDot .done).length = 6 := rfl
  unfold guard
  split
  · rename_i c body rest
    have htext : allowance (char c (group .parens body rest)).text =
        allowance body.text + allowance rest.text + 3000 := by
      simp only [text, Grouping.opener, Grouping.closer, allowance_cons, allowance_append,
        List.cons_append]
      omega
    split
    · simp only
      split
      · rename_i p ps hfilter
        split
        · omega
        · have hjoin := (short_parts '|' false body).join.twice
          have hfewer : (alternatives p.regex (ps.map Part.regex)).length ≤
              (Part.join (parts '|' false body)).length := by
            refine Regex.length_alternatives_le_of_sublist ?_
            rw [← List.map_cons, ← List.map_cons, ← hfilter]
            exact List.filter_sublist.map Part.regex
          have hguard (r : Regex) : (grouped (.notDot (.bar (.group .ahead r .once .done)))
              .once).length = r.length + 15 := by
            have hdot : (Regex.char '.' .done).length = 2 := rfl
            simp only [Regex.notDot, hdot, Regex.length_grouped, Regex.length_group,
              Regex.length_bar, Regex.length_done, Regex.Quantifier.text, List.length_nil]
            omega
          rw [hguard]
          simp only at hjoin
          omega
      · omega
    · exact Nat.zero_le _
  · split
    · simp only [hplain, text, allowance_cons]
      omega
    · exact Nat.zero_le _
  · simp only [hplain, text, List.cons_append, allowance_cons]
    omega
  · exact Nat.zero_le _

theorem length_wholeSegment_le (dot : Bool) : (Regex.wholeSegment dot).length ≤ 11 := by
  cases dot <;> decide

/-- **A segment** is written with at most four times its allowance: its guard and what it is itself
    written as, and in either of them nothing is written more than twice. -/
theorem length_segment_le (dot : Bool) (g : Glob) :
    (g.segment dot).regex.length ≤ 4 * allowance g.text := by
  by_cases hstars : g.IsGlobstar
  · have hnonempty : g.text ≠ [] := by
      intro hnil
      exact absurd hstars.1 (by simp [hnil])
    have hsegment : (g.segment dot).regex = .wholeSegment dot := by
      unfold segment
      unfold IsGlobstar at hstars
      rw [if_neg hnonempty, if_pos hstars]
    have hwhole := length_wholeSegment_le dot
    obtain ⟨c, cs, hcs⟩ := List.exists_cons_of_ne_nil hnonempty
    rw [hsegment, hcs, allowance_cons]
    omega
  · have hpart := (List.forall_mem_cons.mp (short_parts '/' false g)).1.twice
    have htext := congrArg allowance (text_parts '/' false g)
    have hguard : (if !dot && g.isMagic then g.guard else .done).length ≤ 2 * allowance g.text := by
      split
      · exact length_guard_le g
      · exact Nat.zero_le _
    rw [segment_of_not_isGlobstar dot hstars, Regex.length_append]
    rw [allowance_append] at htext
    omega

end Glob

end Wildcard
