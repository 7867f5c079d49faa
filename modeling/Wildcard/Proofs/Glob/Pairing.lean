import Wildcard.Proofs.Glob.Bounds

/-!
# Reading piece by piece

Reading walks over the text with a stack, but it can be told from the front as well: a bare
character or a whole group at the beginning of a pattern has no influence on how the rest is read.
So patterns that agree behind their first pieces agree there as trees.

* `read_cons`: what stands behind a bare character that opens nothing is read as if it stood alone.
* `read_paired`: so is what stands behind a group whose delimiters are partners.
-/

namespace Wildcard.Glob

/-! ## 1. Marks -/

/-- The marks behind some places are those of the text from there on. -/
theorem marks_drop (n : Nat) (cs : List Char) :
    marks n cs (Bracket.lookahead cs) = marksOf (cs.drop n) := by
  induction n generalizing cs with
  | zero => rfl
  | succ n ih =>
    cases cs with
    | nil => rfl
    | cons c rest =>
      rw [marks, tail_lookahead, List.drop_succ_cons]
      exact ih rest

/-- Behind the first mark stand the marks of what is left of the text. -/
theorem exists_marksOf_of_cons {cs : List Char} {m : Mark} {ms : List Mark}
    (h : marksOf cs = m :: ms) : ∃ rest, ms = marksOf rest := by
  rw [marksOf] at h
  generalize htable : Bracket.lookahead cs = table at h
  generalize hzero : 0 = k at h
  fun_cases marks k cs table with
  | case1 =>
    rw [marks] at h
    cases h
  | case2 => cases hzero
  | case3 c rest =>
    rw [marks, ← htable, tail_lookahead, tail_lookahead] at h
    exact ⟨rest, (List.cons.inj h).2.symm⟩
  | case4 c rest _ hno n hn =>
    rw [marks.eq_4 _ _ _ hno, hn, ← htable, tail_lookahead] at h
    exact ⟨_, (List.cons.inj h).2.symm.trans (marks_drop _ _)⟩
  | case5 c rest _ hno hn =>
    rw [marks.eq_4 _ _ _ hno, hn, ← htable, tail_lookahead] at h
    exact ⟨rest, (List.cons.inj h).2.symm⟩

/-- Behind some first marks stand the marks of what is left of the text. -/
theorem exists_marksOf_of_append {cs : List Char} {ms ms' : List Mark}
    (h : marksOf cs = ms ++ ms') : ∃ rest, ms' = marksOf rest := by
  induction ms generalizing cs with
  | nil => exact ⟨cs, h.symm⟩
  | cons m ms ih =>
    obtain ⟨rest, hrest⟩ := exists_marksOf_of_cons h
    exact ih hrest.symm

/-- A character that is neither a backslash nor an opening bracket is a mark of its own. -/
theorem marksOf_cons {c : Char} (hescape : c ≠ '\\') (hopen : c ≠ '[') (cs : List Char) :
    marksOf (c :: cs) = .char c :: marksOf cs := by
  rw [marksOf, marks.eq_4 _ _ _ fun _ _ h _ => hescape h, if_neg hopen, tail_lookahead]
  rfl

theorem marksOf_opener (k : Grouping) (cs : List Char) :
    marksOf (k.opener :: cs) = .char k.opener :: marksOf cs := by
  cases k with
  | braces => exact marksOf_cons (by decide) (by decide) cs
  | parens => exact marksOf_cons (by decide) (by decide) cs

theorem marksOf_closer (k : Grouping) (cs : List Char) :
    marksOf (k.closer :: cs) = .char k.closer :: marksOf cs := by
  cases k with
  | braces => exact marksOf_cons (by decide) (by decide) cs
  | parens => exact marksOf_cons (by decide) (by decide) cs

/-! ## 2. What stands in front -/

/-- Open groups, with more in front of the outermost one; the items in front come last one
    first. -/
def behind (front : Glob) : List (Opener Before) → List (Opener Before)
  | [] => []
  | [o] => [⟨o.family, o.place.grouping, o.place.items ++ front⟩]
  | o :: outer => o :: behind front outer

/-- A state of reading, with more in front of all that was read. -/
def Reading.behind (front : Glob) (r : Reading) : Reading :=
  match r.nesting.openers with
  | [] => ⟨{}, r.items ++ front⟩
  | o :: outer => ⟨⟨Glob.behind front (o :: outer)⟩, r.items⟩

theorem length_behind (front : Glob) (openers : List (Opener Before)) :
    (behind front openers).length = openers.length := by
  fun_induction behind front openers with
  | case1 => rfl
  | case2 o => rfl
  | case3 o outer _ ih => rw [List.length_cons, ih, List.length_cons]

/-- An item that is added is added behind what stands in front. -/
theorem Reading.behind_add {front : Glob} {r : Reading} {f : Glob → Glob}
    (hf : ∀ items, f items ++ front = f (items ++ front)) :
    (r.add f).behind front = (r.behind front).add f := by
  obtain ⟨⟨openers⟩, items⟩ := r
  cases openers with
  | nil => exact congrArg (Reading.mk {}) (hf items)
  | cons o outer => rfl

/-- **A step does not look at what stands in front.** -/
theorem Reading.behind_step (front : Glob) (r : Reading) (m : Mark) :
    (r.step m).behind front = (r.behind front).step m := by
  cases m with
  | escaped c => exact behind_add fun _ => rfl
  | bracket body => exact behind_add fun _ => rfl
  | char c =>
    have hadd : (r.add (.char c)).behind front = (r.behind front).add (.char c) :=
      behind_add fun _ => rfl
    have hdepth : (r.behind front).nesting.depth = r.nesting.depth := by
      obtain ⟨⟨openers⟩, items⟩ := r
      cases openers with
      | nil => rfl
      | cons o outer => exact length_behind front (o :: outer)
    simp only [step, hdepth]
    cases opens? c with
    | some g =>
      simp only
      split
      · obtain ⟨⟨openers⟩, items⟩ := r
        cases openers with
        | nil => rfl
        | cons o outer => rfl
      · exact hadd
    | none =>
      simp only
      by_cases hc : c = '}' ∨ c = ')'
      · simp only [if_pos hc]
        obtain ⟨⟨openers⟩, items⟩ := r
        cases openers with
        | nil => exact hadd
        | cons o outer =>
          by_cases hfamily : o.family = Family.ofChar c
          · cases outer with
            | nil => simp [behind, Glob.behind, Nesting.close, hfamily]
            | cons o' outer => simp [behind, Glob.behind, Nesting.close, hfamily]
          · cases outer with
            | nil => simp [behind, Glob.behind, Nesting.close, hfamily, Reading.add]
            | cons o' outer => simp [behind, Glob.behind, Nesting.close, hfamily, Reading.add]
      · simp only [if_neg hc]
        exact hadd

theorem Reading.behind_foldl (front : Glob) (r : Reading) (ms : List Mark) :
    (ms.foldl step r).behind front = ms.foldl step (r.behind front) := by
  induction ms generalizing r with
  | nil => rfl
  | cons m ms ih => rw [List.foldl_cons, ih, behind_step, List.foldl_cons]

theorem reverseOnto_append (r s t : Glob) :
    (r ++ s).reverseOnto t = s.reverseOnto (r.reverseOnto t) := by
  induction r generalizing t with
  | done => rfl
  | char c rest ih => exact ih _
  | escaped c rest ih => exact ih _
  | bracket b rest ih => exact ih _
  | group g b rest _ ih => exact ih _

theorem unwind_behind (front : Glob) (o : Opener Before) (outer : List (Opener Before))
    (items rest : Glob) :
    unwind (behind front (o :: outer)) items rest =
      front.reverseOnto done ++ unwind (o :: outer) items rest := by
  induction outer generalizing o items rest with
  | nil =>
    rw [behind, unwind, unwind, reverseOnto_append, reverseOnto_eq_append front]
    rfl
  | cons o' outer ih => exact ih o' o.place.items _

theorem Reading.soFar_behind (front : Glob) (r : Reading) :
    (r.behind front).soFar = front.reverseOnto done ++ r.soFar := by
  obtain ⟨⟨openers⟩, items⟩ := r
  cases openers with
  | nil => exact (reverseOnto_append items front done).trans (reverseOnto_eq_append front _)
  | cons o outer => exact unwind_behind front o outer items done

/-- **What is read behind closed items** is read as if it stood alone. -/
theorem soFar_foldl (front : Glob) (ms : List Mark) :
    (ms.foldl Reading.step ⟨{}, front⟩).soFar = front.reverseOnto done ++ ofMarks ms := by
  have h := Reading.behind_foldl front {} ms
  rw [show Reading.behind front {} = ⟨{}, front⟩ from rfl] at h
  rw [← h, Reading.soFar_behind]
  rfl

/-! ## 3. The first group -/

/-- What becomes of the outermost open group in one step: it stays open, or it is closed and
    nothing is open any more. -/
theorem Reading.step_outermost {r : Reading} {inner : List (Opener Before)} {o : Opener Before}
    (h : r.nesting.openers = inner ++ [o]) (m : Mark) :
    (∃ inner', (r.step m).nesting.openers = inner' ++ [o]) ∨
      ∃ body, r.step m = ⟨{}, group o.place.grouping body o.place.items⟩ := by
  have hadd (f : Glob → Glob) : ∃ inner', (r.add f).nesting.openers = inner' ++ [o] := ⟨inner, h⟩
  cases m with
  | escaped c => exact .inl (hadd _)
  | bracket body => exact .inl (hadd _)
  | char c =>
    simp only [step]
    split
    · split
      · exact .inl ⟨_ :: inner, congrArg (_ :: ·) h⟩
      · exact .inl (hadd _)
    · split
      · rename_i o' nesting hclose
        split at hclose
        · obtain ⟨hopen, -⟩ := Nesting.close_eq_some.mp hclose
          rw [h] at hopen
          cases inner with
          | nil =>
            obtain ⟨rfl, hnone⟩ := List.cons.inj hopen
            obtain ⟨openers⟩ := nesting
            cases hnone
            exact .inr ⟨_, rfl⟩
          | cons o'' inner => exact .inl ⟨inner, (List.cons.inj hopen).2.symm⟩
        · cases hclose
      · exact .inl (hadd _)

/-- What becomes of the outermost open group in a run. -/
theorem Reading.foldl_outermost {r : Reading} {inner : List (Opener Before)} {o : Opener Before}
    (h : r.nesting.openers = inner ++ [o]) (ms : List Mark) :
    (∃ inner', (ms.foldl step r).nesting.openers = inner' ++ [o]) ∨
      ∃ ms₁ ms₂ body, ms = ms₁ ++ ms₂ ∧
        ms₁.foldl step r = ⟨{}, group o.place.grouping body o.place.items⟩ := by
  induction ms generalizing r inner with
  | nil => exact .inl ⟨inner, h⟩
  | cons m ms ih =>
    rcases step_outermost h m with ⟨inner', hopen⟩ | ⟨body, hclosed⟩
    · rcases ih hopen with hopen | ⟨ms₁, ms₂, body, rfl, hclosed⟩
      · exact .inl hopen
      · exact .inr ⟨m :: ms₁, ms₂, body, rfl, hclosed⟩
    · exact .inr ⟨[m], ms, body, rfl, hclosed⟩

/-- A pattern begins with an opener that is still open if its outermost opener is. -/
theorem unwind_outermost (inner : List (Opener Before)) (o : Opener Before) (items rest : Glob) :
    ∃ g, unwind (inner ++ [o]) items rest =
      o.place.items.reverseOnto (char o.place.grouping.opener g) := by
  induction inner generalizing items rest with
  | nil => exact ⟨_, rfl⟩
  | cons o' inner ih => exact ih _ _

/-- **An opener at the beginning of a pattern** is a bare character, or it opens a group behind
    which the pattern is read as if it stood alone. -/
theorem read_opener (k : Grouping) (cs : List Char) :
    (∃ rest, read (k.opener :: cs) = char k.opener rest) ∨
      ∃ body rest, read (k.opener :: cs) = group k body (read rest) := by
  have hfirst : Reading.step {} (.char k.opener) =
      ⟨⟨[⟨Family.ofChar k.opener, k, done⟩]⟩, done⟩ := by
    cases k with
    | braces => rfl
    | parens => rfl
  have hread : read (k.opener :: cs) = ((marksOf cs).foldl Reading.step
      ⟨⟨[⟨Family.ofChar k.opener, k, done⟩]⟩, done⟩).soFar := by
    rw [read, marksOf_opener, ← hfirst]
    rfl
  rw [hread]
  have houtermost : (Reading.mk ⟨[⟨Family.ofChar k.opener, k, done⟩]⟩ done).nesting.openers =
      [] ++ [⟨Family.ofChar k.opener, k, done⟩] := rfl
  rcases Reading.foldl_outermost houtermost (marksOf cs) with
    ⟨inner, hopen⟩ | ⟨ms₁, ms₂, body, hms, hclosed⟩
  · rw [Reading.soFar, hopen]
    exact .inl (unwind_outermost inner _ _ done)
  · obtain ⟨rest, hrest⟩ := exists_marksOf_of_append hms
    refine .inr ⟨body, rest, ?_⟩
    rw [hms, List.foldl_append, hclosed, soFar_foldl, hrest]
    rfl

/-! ## 4. Pieces at the beginning -/

/-- **What stands behind a bare character** that opens nothing is read as if it stood alone. -/
theorem read_cons {c : Char} (hescape : c ≠ '\\') (hbracket : c ≠ '[') (hopens : opens? c = none)
    (cs : List Char) : read (c :: cs) = char c (read cs) := by
  have hfirst : Reading.step {} (.char c) = ⟨{}, char c done⟩ := by
    simp only [Reading.step, hopens]
    split
    · rename_i hclose
      split at hclose <;> cases hclose
    · rfl
  have h := soFar_foldl (char c done) (marksOf cs)
  rw [← hfirst] at h
  rw [read, marksOf_cons hescape hbracket]
  exact h

/-- **What stands behind a group** whose delimiters are partners is read as if it stood alone. -/
theorem read_paired {k : Grouping} {inside rest : List Char} {start : Nat}
    (h : (start, start + inside.length + 1) ∈
      (read (k.opener :: (inside ++ k.closer :: rest))).pairs start) :
    ∃ body, read (k.opener :: (inside ++ k.closer :: rest)) = group k body (read rest) ∧
      body.text = inside := by
  have htext := text_read (k.opener :: (inside ++ k.closer :: rest))
  have hlater {g : Glob} {n : Nat} (hn : start < n)
      (hmem : (start, start + inside.length + 1) ∈ g.pairs n) : False := by
    have hinside := mem_pairs_inside hmem
    simp only at hinside
    omega
  rcases read_opener k (inside ++ k.closer :: rest) with ⟨g, hg⟩ | ⟨body, rest', hg⟩
  · rw [hg] at h
    exact (hlater (Nat.lt_succ_self start) h).elim
  · rw [hg] at h htext
    have hlength : body.text.length = inside.length := by
      rcases List.mem_cons.mp h with hpair | hmem
      · have := congrArg Prod.snd hpair
        rw [length_text]
        simp only at this
        omega
      · rcases List.mem_append.mp hmem with hmem | hmem
        · exact (hlater (by omega) hmem).elim
        · exact (hlater (by omega) hmem).elim
    obtain ⟨hbody, hrest⟩ := List.append_inj (List.cons.inj htext).2 hlength
    have hrest := (List.cons.inj hrest).2
    rw [text_read] at hrest
    rw [hg, hrest]
    exact ⟨body, rfl, hbody⟩

end Wildcard.Glob
