import Wildcard.Glob.Reader

/-!
# Reading loses nothing

The tree of a pattern has the text that it was read from (`text_read`), so what is said of the
tree of a text is said of the text. On the way: the bracket that a class is closed with is where
the table says (`closing?_spec`), a class holds something between its brackets (`filled_read`), and
the tree tells the marks that it was read from (`toMarks_read`).
-/

namespace Wildcard

/-! ## 1. The closing bracket -/

namespace Bracket

/-- The place that the table names holds a closing bracket. -/
theorem getElem?_closeAt {cs : List Char} {k n : Nat} (h : closeAt (lookahead cs) k = some n) :
    cs[k + n]? = some ']' := by
  induction cs generalizing k n with
  | nil =>
    cases k with
    | zero => cases h
    | succ k => cases h
  | cons c rest ih =>
    cases k with
    | succ k =>
      rw [Nat.succ_add, List.getElem?_cons_succ]
      exact ih h
    | zero =>
      have later {j d m : Nat} (hj : (closeAt (lookahead rest) j).map (· + d) = some m)
          (hd : d = j + 1) : (c :: rest)[0 + m]? = some ']' := by
        obtain ⟨i, hi, rfl⟩ := Option.map_eq_some_iff.mp hj
        rw [show 0 + (i + d) = (j + i) + 1 by omega, List.getElem?_cons_succ]
        exact ih hi
      simp only [lookahead, closeAt, List.getElem?_cons_zero, Option.bind_some] at h
      split at h
      · exact later h rfl
      · split at h
        · rename_i hc
          subst hc
          cases h
          rfl
        · split at h
          · split at h
            · exact later h rfl
            · exact later h rfl
          · exact later h rfl

/-- The closing bracket of a class stands where it is said to, and something stands before it. -/
theorem closing?_spec {cs : List Char} {n : Nat} (h : closing? cs (lookahead cs) = some n) :
    cs[n]? = some ']' ∧ 0 < n := by
  unfold closing? at h
  generalize hs : negationLength cs = start at h
  simp only at h
  split at h
  · cases h
  · obtain ⟨m, hm, rfl⟩ := Option.map_eq_some_iff.mp h
    refine ⟨?_, by omega⟩
    rw [Nat.add_comm]
    exact getElem?_closeAt hm
  · rename_i c hne hc
    obtain ⟨m, hm, rfl⟩ := Option.map_eq_some_iff.mp h
    have hplace := getElem?_closeAt hm
    rw [Nat.add_comm]
    refine ⟨hplace, Nat.pos_of_ne_zero fun h0 => hne ?_⟩
    obtain ⟨rfl, rfl⟩ : start = 0 ∧ m = 0 := by omega
    exact Option.some.inj (hc.symm.trans hplace)

end Bracket

namespace Nesting

theorem close_eq_some {α : Type} {n n' : Nesting α} {f : Family} {o : Opener α} :
    n.close f = some (o, n') ↔ n.openers = o :: n'.openers ∧ o.family = f := by
  unfold close
  cases hn : n.openers with
  | nil => simp
  | cons o' rest =>
    obtain ⟨openers⟩ := n'
    by_cases hf : o'.family = f
    · simp only [if_pos hf, Option.some.injEq, Prod.mk.injEq, Nesting.mk.injEq, List.cons.injEq]
      constructor
      · intro ⟨ho, hrest⟩
        exact ⟨⟨ho, hrest⟩, ho ▸ hf⟩
      · intro ⟨h, _⟩
        exact h
    · simp only [if_neg hf, reduceCtorEq, List.cons.injEq, false_iff]
      intro ⟨⟨ho, _⟩, hf'⟩
      exact hf (ho ▸ hf')

end Nesting

namespace Glob

/-! ## 2. Marks -/

/-- Something stands between the brackets of every class, in groups as well. -/
def Filled : Glob → Prop
  | done => True
  | char _ rest => rest.Filled
  | escaped _ rest => rest.Filled
  | bracket body rest => body ≠ [] ∧ rest.Filled
  | group _ body rest => body.Filled ∧ rest.Filled

/-- A mark for a class holds something. -/
def Mark.Filled : Mark → Prop
  | .bracket body => body ≠ []
  | _ => True

/-- What is left of a table behind some places is the table of what is left of the text. -/
theorem tail_lookahead (c : Char) (rest : List Char) :
    (Bracket.lookahead (c :: rest)).tail = Bracket.lookahead rest := rfl

/-- The marks of a text, from the first character on that does not belong to the mark before. -/
theorem marks_spec (n : Nat) (cs : List Char) (table : List Bracket.Ahead)
    (h : table = Bracket.lookahead cs) :
    (marks n cs table).flatMap Mark.text = cs.drop n ∧ ∀ m ∈ marks n cs table, m.Filled := by
  fun_induction marks n cs table with
  | case1 => simp
  | case2 n c rest table ih =>
    rw [List.drop_succ_cons]
    exact ih (by rw [h, tail_lookahead])
  | case3 c rest table ih =>
    obtain ⟨htext, hfilled⟩ := ih (by rw [h, tail_lookahead, tail_lookahead])
    refine ⟨?_, List.forall_mem_cons.mpr ⟨trivial, hfilled⟩⟩
    rw [List.flatMap_cons, htext]
    rfl
  | case4 c rest table _ n hn ih =>
    obtain ⟨htext, hfilled⟩ := ih (by rw [h, tail_lookahead])
    split at hn
    · rename_i hc
      subst hc
      rw [h, tail_lookahead] at hn
      obtain ⟨hplace, hpos⟩ := Bracket.closing?_spec hn
      obtain ⟨hlt, hclose⟩ := List.getElem?_eq_some_iff.mp hplace
      refine ⟨?_, List.forall_mem_cons.mpr ⟨?_, hfilled⟩⟩
      · have hdrop := List.drop_eq_getElem_cons hlt
        rw [hclose] at hdrop
        rw [List.flatMap_cons, htext, Mark.text, List.append_assoc, List.singleton_append,
          ← hdrop, List.cons_append, List.take_append_drop]
        rfl
      · intro hnil
        have := congrArg List.length hnil
        rw [List.length_take, List.length_nil] at this
        omega
    · cases hn
  | case5 c rest table _ hn ih =>
    obtain ⟨htext, hfilled⟩ := ih (by rw [h, tail_lookahead])
    refine ⟨?_, List.forall_mem_cons.mpr ⟨trivial, hfilled⟩⟩
    rw [List.flatMap_cons, htext]
    rfl

/-- The marks of a text are its pieces, in order. -/
theorem text_marksOf (cs : List Char) : (marksOf cs).flatMap Mark.text = cs :=
  (marks_spec 0 cs _ rfl).1

theorem filled_marksOf (cs : List Char) : ∀ m ∈ marksOf cs, m.Filled :=
  (marks_spec 0 cs _ rfl).2

/-- The marks that a pattern is read from. -/
def toMarks : Glob → List Mark
  | done => []
  | char c rest => .char c :: rest.toMarks
  | escaped c rest => .escaped c :: rest.toMarks
  | bracket body rest => .bracket body :: rest.toMarks
  | group k body rest => .char k.opener :: body.toMarks ++ .char k.closer :: rest.toMarks

theorem toMarks_append (r s : Glob) : (r ++ s).toMarks = r.toMarks ++ s.toMarks := by
  induction r with
  | done => rfl
  | char c rest ih => exact congrArg _ ih
  | escaped c rest ih => exact congrArg _ ih
  | bracket b rest ih => exact congrArg _ ih
  | group g b rest _ ih => rw [group_append, toMarks, ih, toMarks]; simp

/-- The marks of a pattern have its text. -/
theorem text_toMarks (g : Glob) : g.toMarks.flatMap Mark.text = g.text := by
  induction g with
  | done => rfl
  | char c rest ih => rw [toMarks, List.flatMap_cons, ih]; rfl
  | escaped c rest ih => rw [toMarks, List.flatMap_cons, ih]; rfl
  | bracket b rest ih => rw [toMarks, List.flatMap_cons, ih]; simp [Mark.text, text]
  | group g b rest ihb ihr =>
    rw [toMarks, List.flatMap_append, List.flatMap_cons, List.flatMap_cons, ihb, ihr]
    rfl

/-! ## 3. Groups -/

theorem reverseOnto_eq_append (r s : Glob) : r.reverseOnto s = r.reverseOnto done ++ s := by
  induction r generalizing s with
  | done => rfl
  | char c rest ih => rw [reverseOnto, reverseOnto, ih, ih (char c done), append_assoc]; rfl
  | escaped c rest ih => rw [reverseOnto, reverseOnto, ih, ih (escaped c done), append_assoc]; rfl
  | bracket b rest ih => rw [reverseOnto, reverseOnto, ih, ih (bracket b done), append_assoc]; rfl
  | group g b rest _ ih =>
    rw [reverseOnto, reverseOnto, ih, ih (group g b done), append_assoc]
    rfl

theorem unwind_eq_append (openers : List (Opener Before)) (items rest : Glob) :
    unwind openers items rest = unwind openers items done ++ rest := by
  induction openers generalizing items rest with
  | nil => exact reverseOnto_eq_append items rest
  | cons o outer ih =>
    rw [unwind, unwind, ih, ih _ (char _ (items.reverseOnto done)), reverseOnto_eq_append,
      append_assoc]
    rfl

theorem filled_append {r s : Glob} : (r ++ s).Filled ↔ r.Filled ∧ s.Filled := by
  induction r with
  | done => exact (and_iff_right trivial).symm
  | char c rest ih => exact ih
  | escaped c rest ih => exact ih
  | bracket b rest ih => exact (and_congr_right fun _ => ih).trans (and_assoc).symm
  | group g b rest _ ih => exact (and_congr_right fun _ => ih).trans (and_assoc).symm

/-- What was read so far, openers as bare characters. -/
def Reading.soFar (r : Reading) : Glob := unwind r.nesting.openers r.items done

/-- Every open group is of the family of its opener. -/
def Reading.Fits (r : Reading) : Prop :=
  ∀ o ∈ r.nesting.openers, o.family = Family.ofChar o.place.grouping.opener

/-- An item that was read is the first of what comes behind it. -/
theorem unwind_item {f : Glob → Glob} (openers : List (Opener Before)) (items rest : Glob)
    (hf : (f items).reverseOnto rest = items.reverseOnto (f rest)) :
    unwind openers (f items) rest = unwind openers items (f rest) := by
  cases openers with
  | nil => exact hf
  | cons o outer => rw [unwind, unwind, hf]

/-- A closer of the family of an opener is the one of its group. -/
theorem closer_of_family {g : Grouping} {c : Char} (hc : c = '}' ∨ c = ')')
    (h : Family.ofChar g.opener = Family.ofChar c) : g.closer = c := by
  rcases hc with rfl | rfl
  · cases g with
    | braces => rfl
    | parens => cases h
  · cases g with
    | braces => cases h
    | parens => rfl

/-- How what was read grows in a step: an item comes behind it, or the group that was opened last is
    closed there. -/
inductive Reading.Grows (r s : Reading) : Mark → Prop
  | item {m : Mark} (i : Glob) : i.toMarks = [m] → (m.Filled → i.Filled) →
      s.soFar = r.soFar ++ i → Grows r s m
  | group {k : Grouping} (front body : Glob) : r.soFar = front ++ char k.opener body →
      s.soFar = front ++ .group k body done → Grows r s (.char k.closer)

/-- An item that is added comes behind what was read. -/
theorem Reading.soFar_add {r : Reading} {f : Glob → Glob}
    (hf : ∀ items rest, (f items).reverseOnto rest = items.reverseOnto (f rest)) :
    (r.add f).soFar = r.soFar ++ f done := by
  rw [soFar, soFar, add, unwind_item _ _ _ (hf _ _), unwind_eq_append]

theorem opens?_eq_none {c : Char} (hbrace : c ≠ '{') (hparen : c ≠ '(') : opens? c = none := by
  unfold opens?
  split
  · exact absurd rfl hbrace
  · exact absurd rfl hparen
  · rfl

theorem opener_of_opens? {c : Char} {g : Grouping} (h : opens? c = some g) : g.opener = c := by
  unfold opens? at h
  split at h <;> cases h <;> rfl

/-- A character that is no delimiter is added as it is. -/
theorem Reading.step_plain {c : Char} (hc : c ∉ ['{', '}', '(', ')']) (r : Reading) :
    r.step (.char c) = r.add (.char c) := by
  simp only [List.mem_cons, List.not_mem_nil, not_or] at hc
  have hcloses : ¬ (c = '}' ∨ c = ')') := by simp [hc]
  simp only [step, opens?_eq_none hc.1 hc.2.2.1, if_neg hcloses]

/-- **Reading one mark** puts it behind what was read. -/
theorem Reading.grows_step {r : Reading} (hr : r.Fits) (m : Mark) : r.Grows (r.step m) m := by
  cases m with
  | escaped c => exact .item (escaped c done) rfl (fun _ => trivial) (soFar_add fun _ _ => rfl)
  | bracket body =>
    exact .item (bracket body done) rfl (fun h => ⟨h, trivial⟩) (soFar_add fun _ _ => rfl)
  | char c =>
    have hadd : r.Grows (r.add (.char c)) (.char c) :=
      .item (char c done) rfl (fun _ => trivial) (soFar_add fun _ _ => rfl)
    simp only [step]
    split
    · rename_i g hg
      split
      · -- an opener: the chain in front of it is put aside
        refine .item (char c done) rfl (fun _ => trivial) ?_
        rw [soFar, Nesting.push, unwind, unwind_eq_append, opener_of_opens? hg]
        rfl
      · exact hadd
    · split
      · rename_i o nesting hclose
        -- a closer: the chain in front of the opener comes back, with the group behind it
        split at hclose
        · rename_i hc
          obtain ⟨hopen, hfamily⟩ := Nesting.close_eq_some.mp hclose
          rw [hr o (by rw [hopen]; exact List.mem_cons_self)] at hfamily
          rw [← closer_of_family hc hfamily]
          refine .group (unwind nesting.openers o.place.items done) (r.items.reverseOnto done) ?_ ?_
          · rw [soFar, hopen, unwind, unwind_eq_append]
          · rw [soFar, unwind_item _ _ _ rfl, unwind_eq_append]
        · cases hclose
      · exact hadd

/-- Every open group stays one of the family of its opener. -/
theorem Reading.fits_step {r : Reading} (hr : r.Fits) (m : Mark) : (r.step m).Fits := by
  cases m with
  | escaped c => exact hr
  | bracket body => exact hr
  | char c =>
    simp only [step]
    split
    · rename_i g hg
      split
      · intro o ho
        rcases List.mem_cons.mp ho with rfl | ho
        · rw [opener_of_opens? hg]
        · exact hr o ho
      · exact hr
    · split
      · rename_i o nesting hclose
        split at hclose
        · obtain ⟨hopen, -⟩ := Nesting.close_eq_some.mp hclose
          intro o' ho'
          exact hr o' (by rw [hopen]; exact List.mem_cons_of_mem o ho')
        · cases hclose
      · exact hr

/-- A step of reading: the mark comes behind what was read, and classes stay filled. -/
structure Reading.Extends (r s : Reading) (m : Mark) : Prop where
  marks : s.soFar.toMarks = r.soFar.toMarks ++ [m]
  filled : r.soFar.Filled → m.Filled → s.soFar.Filled
  fits : s.Fits

theorem Reading.extends_step {r : Reading} (hr : r.Fits) (m : Mark) : r.Extends (r.step m) m := by
  have hfits := fits_step hr m
  cases grows_step hr m with
  | item i hmarks hfilled hstep =>
    refine ⟨?_, fun hs hm => ?_, hfits⟩
    · rw [hstep, toMarks_append, hmarks]
    · rw [hstep]
      exact filled_append.mpr ⟨hs, hfilled hm⟩
  | group front body hold hnew =>
    refine ⟨?_, fun hs _ => ?_, hfits⟩
    · rw [hnew, hold, toMarks_append, toMarks_append, List.append_assoc]
      simp [toMarks]
    · rw [hold] at hs
      obtain ⟨houter, hbody⟩ := filled_append.mp hs
      rw [hnew]
      exact filled_append.mpr ⟨houter, hbody, trivial⟩

/-- A run of steps puts all marks behind what was read. -/
theorem Reading.extends_foldl {r : Reading} (hr : r.Fits) (ms : List Mark) :
    (ms.foldl step r).soFar.toMarks = r.soFar.toMarks ++ ms ∧
      (r.soFar.Filled → (∀ m ∈ ms, m.Filled) → (ms.foldl step r).soFar.Filled) := by
  induction ms generalizing r with
  | nil => exact ⟨by simp, fun h _ => h⟩
  | cons m ms ih =>
    obtain ⟨hmarks, hfilled, hfits⟩ := extends_step hr m
    obtain ⟨ihmarks, ihfilled⟩ := ih hfits
    refine ⟨?_, fun hs hms => ?_⟩
    · rw [List.foldl_cons, ihmarks, hmarks, List.append_assoc, List.singleton_append]
    · obtain ⟨hm, hms⟩ := List.forall_mem_cons.mp hms
      exact ihfilled (hfilled hs hm) hms

theorem fits_empty : Reading.Fits {} := by
  intro o ho
  cases ho

/-- The tree of a text tells the marks of the text. -/
theorem toMarks_read (cs : List Char) : (read cs).toMarks = marksOf cs :=
  (Reading.extends_foldl fits_empty (marksOf cs)).1

/-- **The tree of a text has that text.** -/
theorem text_read (cs : List Char) : (read cs).text = cs := by
  rw [← text_toMarks, toMarks_read, text_marksOf]

/-- **Something stands between the brackets of every class that is read.** -/
theorem filled_read (cs : List Char) : (read cs).Filled :=
  (Reading.extends_foldl fits_empty (marksOf cs)).2 trivial (filled_marksOf cs)

end Glob

end Wildcard
