import Mathlib.Data.List.Nodup
import Mathlib.Data.List.Pairwise
import Wildcard.Proofs.Glob.Scan

/-!
# Delimiters and their partners are well nested

Whatever the text of a pattern, the delimiters that reading finds partners for do not get into each
other's way: no place is a delimiter of two pairs, two pairs are apart or one lies inside the other,
nothing lies inside a class, no delimiter is escaped, and a group is in fewer than `maxNesting`
others. All this is read off the tree, and the tree is told by the marks it was read from.

* `pairwise_tagged`: the order of the pairs; that pairs are apart or nested follows from it.
* `Paired`: two delimiters among marks; `paired_of_mem_tagged` finds those of a tree there.
* `Shallow`: the invariant of reading that bounds how deep groups are nested (`depth_read`).
* `stands_of_tagged`: where the delimiters of a pair stand in the text.
* `wellNested_pairsOf`: the pairs of every text.
-/

namespace Wildcard.Glob

/-! ## 1. Pairs by what they enclose -/

/-- The places of all openers and closers, each pair with the kind of its group; a class has none. -/
def tagged (start : Nat) : Glob → List (Option Grouping × Nat × Nat)
  | done => []
  | char _ rest => rest.tagged (start + 1)
  | escaped _ rest => rest.tagged (start + 2)
  | bracket body rest =>
    (none, start, start + body.length + 1) :: rest.tagged (start + body.length + 2)
  | group k body rest =>
    (some k, start, start + body.length + 1) ::
      (body.tagged (start + 1) ++ rest.tagged (start + body.length + 2))

theorem map_tagged (start : Nat) (g : Glob) : (g.tagged start).map Prod.snd = g.pairs start := by
  induction g generalizing start with
  | done => rfl
  | char c rest ih => exact ih _
  | escaped c rest ih => exact ih _
  | bracket body rest ih => rw [tagged, List.map_cons, ih, pairs]
  | group k body rest ihb ihr => rw [tagged, List.map_cons, List.map_append, ihb, ihr, pairs]

/-- A pair of the pattern with the kind of its group. -/
theorem exists_tagged {start : Nat} {g : Glob} {p : Nat × Nat} (h : p ∈ g.pairs start) :
    ∃ kind, (kind, p) ∈ g.tagged start := by
  rw [← map_tagged] at h
  obtain ⟨⟨kind, p⟩, hmem, rfl⟩ := List.mem_map.mp h
  exact ⟨kind, hmem⟩

theorem mem_pairs_of_tagged {start : Nat} {g : Glob} {kind : Option Grouping} {p : Nat × Nat}
    (h : (kind, p) ∈ g.tagged start) : p ∈ g.pairs start := by
  rw [← map_tagged]
  exact List.mem_map_of_mem h

/-- The second pair lies inside the first. -/
def Encloses (p q : Nat × Nat) : Prop := p.1 < q.1 ∧ q.2 < p.2

instance (p q : Nat × Nat) : Decidable (Encloses p q) :=
  inferInstanceAs (Decidable (p.1 < q.1 ∧ q.2 < p.2))

/-- The first pair ends before the second begins, or it is a group and the second lies inside. -/
def Precedes (x y : Option Grouping × Nat × Nat) : Prop :=
  x.2.2 < y.2.1 ∨ x.1.isSome = true ∧ Encloses x.2 y.2

/-- **The pairs come in the order of their openers**, and what lies inside a group comes behind it. -/
theorem pairwise_tagged (start : Nat) (g : Glob) : (g.tagged start).Pairwise Precedes := by
  induction g generalizing start with
  | done => exact List.Pairwise.nil
  | char c rest ih => exact ih _
  | escaped c rest ih => exact ih _
  | bracket body rest ih =>
    refine List.pairwise_cons.mpr ⟨fun y hy => .inl ?_, ih _⟩
    have := mem_pairs_inside (mem_pairs_of_tagged hy)
    show start + body.length + 1 < y.2.1
    omega
  | group k body rest ihb ihr =>
    refine List.pairwise_cons.mpr ⟨fun y hy => ?_, List.pairwise_append.mpr
      ⟨ihb _, ihr _, fun x hx y hy => .inl ?_⟩⟩
    · rcases List.mem_append.mp hy with hy | hy
      · have := mem_pairs_inside (mem_pairs_of_tagged hy)
        refine .inr ⟨rfl, ?_⟩
        show start < y.2.1 ∧ y.2.2 < start + body.length + 1
        omega
      · have := mem_pairs_inside (mem_pairs_of_tagged hy)
        refine .inl ?_
        show start + body.length + 1 < y.2.1
        omega
    · have := mem_pairs_inside (mem_pairs_of_tagged hx)
      have := mem_pairs_inside (mem_pairs_of_tagged hy)
      omega

/-- Of two pairs one precedes the other. -/
theorem precedes_or_precedes {start : Nat} {g : Glob} {x y : Option Grouping × Nat × Nat}
    (hx : x ∈ g.tagged start) (hy : y ∈ g.tagged start) (hne : x ≠ y) :
    Precedes x y ∨ Precedes y x := by
  have hsymm : Std.Symm fun x y => Precedes x y ∨ Precedes y x := ⟨fun _ _ => Or.symm⟩
  have hpairs : (g.tagged start).Pairwise fun x y => Precedes x y ∨ Precedes y x :=
    (pairwise_tagged start g).imp Or.inl
  exact hpairs.forall hx hy hne

/-- No place is that of two delimiters. -/
theorem nodup_places (start : Nat) (g : Glob) :
    ((g.pairs start).flatMap fun p => [p.1, p.2]).Nodup := by
  rw [← map_tagged, List.flatMap_map, List.nodup_flatMap]
  refine ⟨fun x hx => ?_, (pairwise_tagged start g).imp_of_mem fun hx hy h => ?_⟩
  · have := mem_pairs_inside (mem_pairs_of_tagged hx)
    rw [List.nodup_cons, List.mem_singleton]
    exact ⟨by omega, List.nodup_singleton _⟩
  · have := mem_pairs_inside (mem_pairs_of_tagged hx)
    have := mem_pairs_inside (mem_pairs_of_tagged hy)
    unfold Precedes Encloses at h
    intro i hi hi'
    simp only [List.mem_cons, List.not_mem_nil, or_false] at hi hi'
    omega

/-- Two pairs are apart, or one lies inside the other. -/
theorem apart_or_encloses {start : Nat} {g : Glob} {p q : Nat × Nat} (hp : p ∈ g.pairs start)
    (hq : q ∈ g.pairs start) (hne : p ≠ q) :
    p.2 < q.1 ∨ q.2 < p.1 ∨ Encloses p q ∨ Encloses q p := by
  obtain ⟨kind, hp⟩ := exists_tagged hp
  obtain ⟨kind', hq⟩ := exists_tagged hq
  rcases precedes_or_precedes hp hq fun heq => hne (congrArg Prod.snd heq) with h | h
  · exact h.imp_right fun h => .inr (.inl h.2)
  · exact .inr (h.imp_right fun h => .inr h.2)

/-- Nothing lies inside a class. -/
theorem not_encloses_of_class {start : Nat} {g : Glob} {p q : Nat × Nat}
    (hp : (none, p) ∈ g.tagged start) (hq : q ∈ g.pairs start) : ¬ Encloses p q := by
  obtain ⟨kind, hq⟩ := exists_tagged hq
  have := mem_pairs_inside (mem_pairs_of_tagged hp)
  have := mem_pairs_inside (mem_pairs_of_tagged hq)
  unfold Encloses
  by_cases heq : p = q
  · rw [heq]
    omega
  · rcases precedes_or_precedes hp hq fun h => heq (congrArg Prod.snd h) with h | h
    · unfold Precedes at h
      simp only [Option.isSome_none, Bool.false_eq_true, false_and, or_false] at h
      omega
    · unfold Precedes Encloses at h
      simp only at h
      omega

/-! ## 2. How deep groups are nested -/

theorem filter_encloses_eq_nil {pairs : List (Nat × Nat)} {p : Nat × Nat}
    (h : ∀ q ∈ pairs, p.1 ≤ q.1 ∨ q.2 ≤ p.2) : pairs.filter (Encloses · p) = [] := by
  refine List.filter_eq_nil_iff.mpr fun q hq => ?_
  have hpq := h q hq
  rw [decide_eq_true_eq]
  rintro ⟨hopener, hcloser⟩
  omega

/-- No pair behind an opener encloses the opener. -/
theorem filter_encloses_behind {g : Glob} {start : Nat} {p : Nat × Nat} (h : p.1 ≤ start) :
    (g.pairs start).filter (Encloses · p) = [] :=
  filter_encloses_eq_nil fun _ hq => .inl (Nat.le_trans h (mem_pairs_inside hq).1)

/-- A class encloses no pair behind it. -/
theorem filter_encloses_bracket {body : List Char} {rest : Glob} {start : Nat} {p : Nat × Nat}
    (hp : p ∈ rest.pairs (start + body.length + 2)) :
    ((bracket body rest).pairs start).filter (Encloses · p) =
      (rest.pairs (start + body.length + 2)).filter (Encloses · p) := by
  have hinside := mem_pairs_inside hp
  have hfront : ¬ Encloses (start, start + body.length + 1) p := by
    rintro ⟨-, hcloser⟩
    simp only at hcloser
    omega
  rw [pairs, List.filter_cons_of_neg (by simpa using hfront)]

/-- The pairs around a pair in a group are the group and those around it in the contents. -/
theorem filter_encloses_body {k : Grouping} {body rest : Glob} {start : Nat} {p : Nat × Nat}
    (hp : p ∈ body.pairs (start + 1)) :
    ((group k body rest).pairs start).filter (Encloses · p) =
      (start, start + body.length + 1) :: (body.pairs (start + 1)).filter (Encloses · p) := by
  have hinside := mem_pairs_inside hp
  have haround : Encloses (start, start + body.length + 1) p :=
    ⟨by simp only; omega, by simp only; omega⟩
  have hafter : (rest.pairs (start + body.length + 2)).filter (Encloses · p) = [] :=
    filter_encloses_behind (by omega)
  rw [pairs, List.filter_cons_of_pos (by simpa using haround), List.filter_append, hafter,
    List.append_nil]

/-- Neither a group nor what it holds encloses a pair behind it. -/
theorem filter_encloses_rest {k : Grouping} {body rest : Glob} {start : Nat} {p : Nat × Nat}
    (hp : p ∈ rest.pairs (start + body.length + 2)) :
    ((group k body rest).pairs start).filter (Encloses · p) =
      (rest.pairs (start + body.length + 2)).filter (Encloses · p) := by
  have hinside := mem_pairs_inside hp
  have hfront : ¬ Encloses (start, start + body.length + 1) p := by
    rintro ⟨-, hcloser⟩
    simp only at hcloser
    omega
  have hbefore : (body.pairs (start + 1)).filter (Encloses · p) = [] :=
    filter_encloses_eq_nil fun q hq => .inr (by have := mem_pairs_inside hq; omega)
  rw [pairs, List.filter_cons_of_neg (by simpa using hfront), List.filter_append, hbefore,
    List.nil_append]

/-- **The pairs around a pair** are no more than the depth of the pattern, and fewer if the pair is
    that of a group. -/
theorem length_enclosing {start : Nat} {g : Glob} {kind : Option Grouping} {p : Nat × Nat}
    (hp : (kind, p) ∈ g.tagged start) :
    ((g.pairs start).filter (Encloses · p)).length + kind.toList.length ≤ g.depth := by
  induction g generalizing start with
  | done => cases hp
  | char c rest ih => exact ih hp
  | escaped c rest ih => exact ih hp
  | bracket body rest ih =>
    rcases List.mem_cons.mp hp with heq | hp
    · cases heq
      rw [filter_encloses_behind (Nat.le_refl _)]
      exact Nat.zero_le _
    · rw [filter_encloses_bracket (mem_pairs_of_tagged hp)]
      exact ih hp
  | group k body rest ihb ihr =>
    rw [depth]
    rcases List.mem_cons.mp hp with heq | hp
    · cases heq
      rw [filter_encloses_behind (Nat.le_refl _), List.length_nil, Option.toList_some,
        List.length_singleton]
      omega
    · rcases List.mem_append.mp hp with hp | hp
      · have hbody := ihb hp
        rw [filter_encloses_body (mem_pairs_of_tagged hp), List.length_cons]
        omega
      · have hrest := ihr hp
        rw [filter_encloses_rest (mem_pairs_of_tagged hp)]
        omega

/-- **No more than `maxNesting` groups are open** and hold what was read: each chain can be as deep
    as there are groups left to open around it. -/
def Shallow : List (Opener Before) → Glob → Prop
  | [], items => items.depth ≤ maxNesting
  | o :: outer, items =>
    items.depth + (o :: outer).length ≤ maxNesting ∧ Shallow outer o.place.items

theorem Shallow.le {openers : List (Opener Before)} {items : Glob} (h : Shallow openers items) :
    items.depth + openers.length ≤ maxNesting := by
  cases openers with
  | nil => exact h
  | cons o outer => exact h.1

/-- What is read in the innermost group may be exchanged for something that is shallow itself. -/
theorem Shallow.exchange {openers : List (Opener Before)} {items items' : Glob}
    (h : Shallow openers items) (hitems : items'.depth + openers.length ≤ maxNesting) :
    Shallow openers items' := by
  cases openers with
  | nil => exact hitems
  | cons o outer => exact ⟨hitems, h.2⟩

theorem depth_reverseOnto (r s : Glob) : (r.reverseOnto s).depth = max r.depth s.depth := by
  induction r generalizing s with
  | done => exact (Nat.zero_max _).symm
  | char c rest ih => exact ih _
  | escaped c rest ih => exact ih _
  | bracket body rest ih => exact ih _
  | group k body rest _ ih =>
    rw [reverseOnto, ih, depth, depth]
    omega

/-- **A step of reading** keeps what was read shallow. -/
theorem shallow_step {r : Reading} (h : Shallow r.nesting.openers r.items) (m : Mark) :
    Shallow (r.step m).nesting.openers (r.step m).items := by
  have hadd {f : Glob → Glob} (hf : ∀ items, (f items).depth = items.depth) :
      Shallow (r.add f).nesting.openers (r.add f).items := by
    refine h.exchange ?_
    show (f r.items).depth + r.nesting.openers.length ≤ maxNesting
    rw [hf]
    exact h.le
  cases m with
  | escaped c => exact hadd fun _ => rfl
  | bracket body => exact hadd fun _ => rfl
  | char c =>
    have hchar : Shallow (r.add (.char c)).nesting.openers (r.add (.char c)).items :=
      hadd fun _ => rfl
    simp only [Reading.step]
    split
    · split
      · rename_i hroom
        refine ⟨?_, h⟩
        rw [depth, List.length_cons, Nat.zero_add]
        exact hroom
      · exact hchar
    · split
      · rename_i o nesting hclose
        split at hclose
        · obtain ⟨hopen, -⟩ := Nesting.close_eq_some.mp hclose
          rw [hopen] at h
          obtain ⟨hinner, houter⟩ := h
          refine houter.exchange ?_
          have := houter.le
          rw [depth, depth_reverseOnto, depth]
          rw [List.length_cons] at hinner
          omega
        · cases hclose
      · exact hchar

theorem shallow_foldl {r : Reading} (h : Shallow r.nesting.openers r.items) (ms : List Mark) :
    Shallow (ms.foldl Reading.step r).nesting.openers (ms.foldl Reading.step r).items := by
  induction ms generalizing r with
  | nil => exact h
  | cons m ms ih => exact ih (shallow_step h m)

/-- Groups that stay open are none. -/
theorem depth_unwind {openers : List (Opener Before)} {items rest : Glob}
    (h : Shallow openers items) (hrest : rest.depth ≤ maxNesting) :
    (unwind openers items rest).depth ≤ maxNesting := by
  induction openers generalizing items rest with
  | nil =>
    rw [unwind, depth_reverseOnto]
    exact Nat.max_le.mpr ⟨h, hrest⟩
  | cons o outer ih =>
    refine ih h.2 ?_
    have hitems := h.le
    rw [depth, depth_reverseOnto]
    omega

/-- **Groups are nested no deeper than `maxNesting`**, whatever the text. -/
theorem depth_read (cs : List Char) : (read cs).depth ≤ maxNesting := by
  have hempty : Shallow ({} : Reading).nesting.openers ({} : Reading).items := Nat.zero_le _
  exact depth_unwind (shallow_foldl hempty (marksOf cs)) (Nat.zero_le _)

/-! ## 3. Delimiters among marks -/

/-- How many characters marks have. -/
def width (ms : List Mark) : Nat := (ms.flatMap Mark.text).length

theorem width_append (ms ms' : List Mark) : width (ms ++ ms') = width ms + width ms' := by
  simp [width]

theorem width_bracket (members : List Char) : width [.bracket members] = members.length + 2 := by
  simp [width, Mark.text]

theorem width_toMarks (g : Glob) : width g.toMarks = g.length := by
  rw [width, text_toMarks, length_text]

/-- Two places of marks that are the brackets of a class or the delimiters of a group. -/
inductive Paired (ms : List Mark) : Option Grouping → Nat × Nat → Prop
  | class (front back : List Mark) (body : List Char) : ms = front ++ .bracket body :: back →
      Paired ms none (width front, width front + body.length + 1)
  | group (k : Grouping) (front inside back : List Mark) :
      ms = front ++ .char k.opener :: (inside ++ .char k.closer :: back) →
        Paired ms (some k) (width front, width front + width inside + 1)

/-- **The pairs of a tree** are delimiters among its marks, wherever these stand. -/
theorem paired_of_mem_tagged {g : Glob} {start : Nat} {kind : Option Grouping} {p : Nat × Nat}
    (h : (kind, p) ∈ g.tagged start) (front back : List Mark) (hfront : width front = start) :
    Paired (front ++ (g.toMarks ++ back)) kind p := by
  induction g generalizing start front back with
  | done => cases h
  | char c rest ih =>
    have hnext : width (front ++ [.char c]) = start + 1 := by rw [width_append, hfront]; rfl
    have hrest := ih h _ back hnext
    rwa [List.append_assoc] at hrest
  | escaped c rest ih =>
    have hnext : width (front ++ [.escaped c]) = start + 2 := by rw [width_append, hfront]; rfl
    have hrest := ih h _ back hnext
    rwa [List.append_assoc] at hrest
  | bracket body rest ih =>
    rcases List.mem_cons.mp h with heq | h
    · cases heq
      rw [← hfront]
      exact .class front (rest.toMarks ++ back) body rfl
    · have hnext : width (front ++ [.bracket body]) = start + body.length + 2 := by
        rw [width_append, hfront]
        simp [width, Mark.text]
        omega
      have hrest := ih h _ back hnext
      rwa [List.append_assoc] at hrest
  | group k body rest ihb ihr =>
    have hmarks : front ++ ((group k body rest).toMarks ++ back) = front ++ .char k.opener ::
        (body.toMarks ++ .char k.closer :: (rest.toMarks ++ back)) := by
      simp [toMarks]
    rw [hmarks]
    rcases List.mem_cons.mp h with heq | h
    · cases heq
      rw [← hfront, ← width_toMarks body]
      exact .group k front body.toMarks (rest.toMarks ++ back) rfl
    · rcases List.mem_append.mp h with h | h
      · have hnext : width (front ++ [.char k.opener]) = start + 1 := by
          rw [width_append, hfront]
          rfl
        have hbody := ihb h _ (.char k.closer :: (rest.toMarks ++ back)) hnext
        rwa [List.append_assoc] at hbody
      · have hnext : width (front ++ .char k.opener :: (body.toMarks ++ [.char k.closer])) =
            start + body.length + 2 := by
          rw [← List.singleton_append, width_append, width_append, width_append, hfront,
            width_toMarks]
          simp [width, Mark.text]
          omega
        have hrest := ihr h _ back hnext
        simpa using hrest

/-! ## 4. Delimiters in the text -/

open Wildcard.Bracket (endBackslashes negationLength)

/-- The first mark of a text, and what is left of the text behind it. -/
inductive Begins : List Char → Mark → List Char → Prop
  | backslash : Begins ['\\'] (.char '\\') []
  | escaped (c : Char) (rest : List Char) : Begins ('\\' :: c :: rest) (.escaped c) rest
  | bracket (body rest : List Char) :
      Bracket.closing? (body ++ ']' :: rest) (Bracket.lookahead (body ++ ']' :: rest)) =
        some body.length → Begins ('[' :: (body ++ ']' :: rest)) (.bracket body) rest
  | char (c : Char) (rest : List Char) : c ≠ '\\' → Begins (c :: rest) (.char c) rest

/-- **What a first mark can be.** -/
theorem begins_of_marksOf {cs : List Char} {m : Mark} {ms : List Mark}
    (h : marksOf cs = m :: ms) : ∃ rest, ms = marksOf rest ∧ Begins cs m rest := by
  cases cs with
  | nil => cases h
  | cons c rest =>
    by_cases hback : c = '\\'
    · subst hback
      cases rest with
      | nil =>
        cases h
        exact ⟨[], rfl, .backslash⟩
      | cons c' rest =>
        rw [marksOf_escaped] at h
        cases h
        exact ⟨rest, rfl, .escaped c' rest⟩
    · by_cases hopen : c = '['
      · subst hopen
        cases hclose : Bracket.closing? rest (Bracket.lookahead rest) with
        | none =>
          rw [marksOf_unclosed hclose] at h
          cases h
          exact ⟨rest, rfl, .char '[' rest hback⟩
        | some n =>
          obtain ⟨body, rest', rfl, rfl⟩ := exists_eq_of_closing? hclose
          rw [marksOf_class hclose] at h
          cases h
          exact ⟨rest', rfl, .bracket body rest' hclose⟩
      · rw [marksOf_cons hback hopen] at h
        cases h
        exact ⟨rest, rfl, .char c rest hback⟩

/-- **No mark of a text is escaped**: what stands in front of it ends with an even number of
    backslashes. -/
theorem endBackslashes_front {cs : List Char} {front back : List Mark} {m : Mark}
    (h : marksOf cs = front ++ m :: back) (before : List Char)
    (hbefore : endBackslashes before % 2 = 0) :
    endBackslashes (before ++ front.flatMap Mark.text) % 2 = 0 := by
  induction front generalizing cs before with
  | nil => simpa using hbefore
  | cons m' front ih =>
    obtain ⟨rest, hrest, hfirst⟩ := begins_of_marksOf h
    have hnext : endBackslashes (before ++ m'.text) % 2 = 0 := by
      cases hfirst with
      | backslash =>
        -- nothing stands behind a backslash that escapes nothing
        exact absurd hrest (by simp [marksOf, marks])
      | escaped c => exact Bracket.endBackslashes_escaped hbefore c
      | bracket body =>
        have hsplit : before ++ (Mark.bracket body).text = (before ++ '[' :: body) ++ [']'] := by
          simp [Mark.text]
        rw [hsplit, Bracket.endBackslashes_other (by decide)]
      | char c _ hc => rw [Mark.text, Bracket.endBackslashes_other hc]
    rw [List.flatMap_cons, ← List.append_assoc]
    exact ih hrest.symm _ hnext

/-- The opener and the closer of a group, or of a class. -/
def delimiters : Option Grouping → Char × Char
  | none => ('[', ']')
  | some k => (k.opener, k.closer)

theorem delimiters_spec (kind : Option Grouping) :
    (delimiters kind).1 ∈ ['\x7b', '[', '('] ∧ (delimiters kind).2 ∈ ['\x7d', ']', ')'] ∧
      Family.ofChar (delimiters kind).1 = Family.ofChar (delimiters kind).2 := by
  rcases kind with - | - | -
  · decide
  · decide
  · decide

/-- Two places of a text that are the delimiters of a group or of a class. -/
structure Stands (cs : List Char) (kind : Option Grouping) (p : Nat × Nat) : Prop where
  opener : cs[p.1]? = some (delimiters kind).1
  closer : cs[p.2]? = some (delimiters kind).2
  openerEven : endBackslashes (cs.take p.1) % 2 = 0
  closerEven : endBackslashes (cs.take p.2) % 2 = 0
  members : kind = none → p.1 + 1 + negationLength (cs.drop (p.1 + 1)) < p.2

/-- Delimiters stand where a text is cut at them. -/
theorem stands_of_cut {kind : Option Grouping} {front inside back : List Char}
    (hopener : endBackslashes front % 2 = 0)
    (hcloser : endBackslashes (front ++ (delimiters kind).1 :: inside) % 2 = 0)
    (hmembers : kind = none → negationLength (inside ++ ']' :: back) < inside.length) :
    Stands (front ++ (delimiters kind).1 :: (inside ++ (delimiters kind).2 :: back)) kind
      (front.length, front.length + inside.length + 1) := by
  have hplace : front.length + inside.length + 1 =
      (front ++ (delimiters kind).1 :: inside).length := by
    rw [List.length_append, List.length_cons, Nat.add_assoc]
  have hsplit : front ++ (delimiters kind).1 :: (inside ++ (delimiters kind).2 :: back) =
      (front ++ (delimiters kind).1 :: inside) ++ (delimiters kind).2 :: back := by
    rw [List.append_assoc, List.cons_append]
  refine ⟨by simp, ?_, ?_, ?_, ?_⟩
  · rw [hsplit, hplace, List.getElem?_append_right (Nat.le_refl _), Nat.sub_self, List.getElem?_cons_zero]
  · rwa [List.take_left' rfl]
  · rwa [hsplit, hplace, List.take_left' rfl]
  · rintro rfl
    have hdrop : (front ++ (delimiters none).1 :: (inside ++ (delimiters none).2 :: back)).drop
        (front.length + 1) = inside ++ ']' :: back := by
      rw [List.drop_length_add_append]
      rfl
    have hlength := hmembers rfl
    simp only [hdrop]
    omega

/-- **Every pair of a pattern** stands in its text. -/
theorem stands_of_tagged {cs : List Char} {kind : Option Grouping} {p : Nat × Nat}
    (h : (kind, p) ∈ (read cs).tagged 0) : Stands cs kind p := by
  have hpaired := paired_of_mem_tagged h [] [] rfl
  rw [List.nil_append, List.append_nil, toMarks_read] at hpaired
  have htext := text_marksOf cs
  cases hpaired with
  | «class» front back body hmarks =>
    have hopener : endBackslashes (front.flatMap Mark.text) % 2 = 0 :=
      endBackslashes_front hmarks [] rfl
    obtain ⟨rest, hrest⟩ := exists_marksOf_of_append hmarks
    obtain ⟨behind, _, hfirst⟩ := begins_of_marksOf hrest.symm
    cases hfirst with
    | bracket _ _ hclose =>
      have hbracket : endBackslashes (front.flatMap Mark.text ++ ['[']) % 2 = 0 := by
        rw [Bracket.endBackslashes_other (by decide)]
      obtain ⟨hmembers, hcloser⟩ := Bracket.closing?_members hclose hbracket
      rw [List.append_assoc, List.singleton_append, List.take_left' rfl] at hcloser
      rw [hmarks, List.flatMap_append, hrest, text_marksOf] at htext
      rw [← htext]
      exact @stands_of_cut none _ _ _ hopener hcloser fun _ => hmembers
  | group k front inside back hmarks =>
    have hopener : endBackslashes (front.flatMap Mark.text) % 2 = 0 :=
      endBackslashes_front hmarks [] rfl
    have hclosed : marksOf cs = (front ++ .char k.opener :: inside) ++ .char k.closer :: back := by
      rw [hmarks, List.append_assoc, List.cons_append]
    have hcloser : endBackslashes ((front ++ .char k.opener :: inside).flatMap Mark.text) % 2 = 0 :=
      endBackslashes_front hclosed [] rfl
    rw [List.flatMap_append] at hcloser
    rw [hmarks, List.flatMap_append, List.flatMap_cons, List.flatMap_append] at htext
    rw [← htext]
    exact @stands_of_cut (some k) _ _ _ hopener hcloser nofun

/-! ## 5. The pairs of a text -/

/-- Openers and closers of a text, paired by their places, do not get into each other's way. -/
structure WellNested (cs : List Char) (pairs : List (Nat × Nat)) : Prop where
  /-- An opener stands before a closer of its family. -/
  families : ∀ p ∈ pairs, p.1 < p.2 ∧ p.2 < cs.length ∧
    ∃ a ∈ ['\x7b', '[', '('], ∃ b ∈ ['\x7d', ']', ')'],
      cs[p.1]? = some a ∧ cs[p.2]? = some b ∧ Family.ofChar a = Family.ofChar b
  /-- No place is that of two openers or closers. -/
  distinct : (pairs.flatMap fun p => [p.1, p.2]).Nodup
  /-- No delimiter stands behind an odd run of backslashes. -/
  unescaped : ∀ p ∈ pairs, endBackslashes (cs.take p.1) % 2 = 0 ∧
    endBackslashes (cs.take p.2) % 2 = 0
  /-- Two pairs are apart, or one lies inside the other. -/
  nested : ∀ p ∈ pairs, ∀ q ∈ pairs, p ≠ q →
    p.2 < q.1 ∨ q.2 < p.1 ∨ Encloses p q ∨ Encloses q p
  /-- Nothing lies inside a class, and a class has a member behind the character that negates it. -/
  classes : ∀ p ∈ pairs, cs[p.1]? = some '[' →
    (∀ q ∈ pairs, ¬ Encloses p q) ∧
      p.1 + 1 + negationLength (cs.drop (p.1 + 1)) < p.2
  /-- A group lies inside fewer than `maxNesting` pairs. -/
  shallow : ∀ p ∈ pairs, cs[p.1]? ≠ some '[' →
    (pairs.filter (Encloses · p)).length < maxNesting

/-- **The pairs of every text are well nested.** -/
theorem wellNested_pairsOf (cs : List Char) : WellNested cs (pairsOf cs) := by
  have hstands {p : Nat × Nat} (hp : p ∈ pairsOf cs) :
      ∃ kind, (kind, p) ∈ (read cs).tagged 0 ∧ Stands cs kind p := by
    obtain ⟨kind, hmem⟩ := exists_tagged hp
    exact ⟨kind, hmem, stands_of_tagged hmem⟩
  refine ⟨fun p hp => ?_, nodup_places 0 (read cs), fun p hp => ?_,
    fun p hp q hq hne => apart_or_encloses hp hq hne, fun p hp hclass => ?_, fun p hp hgroup => ?_⟩
  · obtain ⟨kind, -, h⟩ := hstands hp
    obtain ⟨hlt, hinside⟩ := pairs_inside hp
    obtain ⟨hopens, hcloses, hfamily⟩ := delimiters_spec kind
    exact ⟨hlt, hinside, _, hopens, _, hcloses, h.opener, h.closer, hfamily⟩
  · obtain ⟨kind, -, h⟩ := hstands hp
    exact ⟨h.openerEven, h.closerEven⟩
  · obtain ⟨kind, hmem, h⟩ := hstands hp
    have hnone : kind = none := by
      rw [h.opener] at hclass
      rcases kind with - | - | -
      · rfl
      · cases hclass
      · cases hclass
    subst hnone
    exact ⟨fun q hq => not_encloses_of_class hmem hq, h.members rfl⟩
  · obtain ⟨kind, hmem, h⟩ := hstands hp
    have hsome : kind.toList.length = 1 := by
      rw [h.opener] at hgroup
      cases kind with
      | none => exact absurd rfl hgroup
      | some k => rfl
    have hdepth := depth_read cs
    have hcount : ((pairsOf cs).filter (Encloses · p)).length + kind.toList.length ≤
        (read cs).depth := length_enclosing hmem
    omega

end Wildcard.Glob
