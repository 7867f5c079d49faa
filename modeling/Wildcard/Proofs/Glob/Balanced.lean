import Wildcard.Proofs.Glob.Pairing
import Wildcard.Proofs.Segmentation

/-!
# Reading balanced texts

A text in which every delimiter has its partner is read alike wherever it stands: its classes close
where they did, its groups stay within it, and nothing that follows can join them. So a pattern that
is put together from such texts is put together from their trees.

* `marksOf_append`: marks that nothing can be added to stay as they are in front of any text.
* `Reading.foldl_toMarks`: reading a balanced pattern adds its items and leaves the open groups alone.
* `read_append`, `read_group`, `pieces_read_intercalate`: balanced texts behind one another, in a
  group, and with delimiters between them.
-/

namespace Wildcard

/-! ## 1. Classes -/

namespace Bracket

/-- Every opening bracket in the class stands behind a backslash. -/
def isPlain : List Char → Bool
  | [] => true
  | '\\' :: _ :: rest => isPlain rest
  | c :: rest => c != '[' && isPlain rest

theorem isPlain_cons {c : Char} (hc : c ≠ '\\') {rest : List Char}
    (h : isPlain (c :: rest) = true) : c ≠ '[' ∧ isPlain rest = true := by
  rw [isPlain.eq_3 _ _ fun _ _ hc' _ => hc hc', Bool.and_eq_true, bne_iff_ne] at h
  exact h

/-- The closing bracket of a plain class is found where it is, whatever follows. -/
theorem closeAt_of_isPlain {body rest : List Char} (hbody : isPlain body = true)
    (h : closeAt (lookahead (body ++ ']' :: rest)) 0 = some body.length) (rest' : List Char) :
    closeAt (lookahead (body ++ ']' :: rest')) 0 = some body.length := by
  fun_induction isPlain body with
  | case1 => rfl
  | case2 c body ih =>
    have hstep (cs : List Char) : closeAt (lookahead ('\\' :: c :: cs)) 0 =
        (closeAt (lookahead cs) 0).map (· + 2) := rfl
    obtain ⟨n, hn, hlength⟩ := Option.map_eq_some_iff.mp ((hstep _).symm.trans h)
    have hclose : closeAt (lookahead (body ++ ']' :: rest)) 0 = some body.length :=
      hn.trans (congrArg some (Nat.add_right_cancel hlength))
    exact (hstep _).trans (congrArg (Option.map (· + 2)) (ih hbody hclose))
  | case3 c body hescape ih =>
    obtain ⟨hopen, hbody⟩ := Bool.and_eq_true_iff.mp hbody
    have hopen := bne_iff_ne.mp hopen
    by_cases hback : c = '\\'
    · -- a backslash at the end would take the closing bracket with it
      subst hback
      cases body with
      | nil =>
        obtain ⟨n, -, hlength⟩ := Option.map_eq_some_iff.mp
          (show (closeAt (lookahead rest) 0).map (· + 2) = some 1 from h)
        omega
      | cons c' body => exact absurd rfl (hescape c' body rfl)
    · have hstep (cs : List Char) : closeAt (lookahead (c :: cs)) 0 =
          if c = ']' then some 0 else (closeAt (lookahead cs) 0).map (· + 1) := by
        simp only [lookahead, closeAt, List.getElem?_cons_zero, Option.bind_some, if_neg hback,
          hopen, false_and, if_false]
      rw [List.cons_append, hstep] at h ⊢
      by_cases hclose : c = ']'
      · rw [if_pos hclose] at h
        cases h
      · rw [if_neg hclose] at h ⊢
        obtain ⟨n, hn, hlength⟩ := Option.map_eq_some_iff.mp h
        have hclose : closeAt (lookahead (body ++ ']' :: rest)) 0 = some body.length :=
          hn.trans (congrArg some (Nat.add_right_cancel hlength))
        rw [ih hbody hclose]
        rfl

/-- How far it is to the closing bracket from the first member of a class on. -/
def closeFromFirst? : List Char → Option Nat
  | [] => none
  | c :: rest =>
    if c = ']' then (closeAt (lookahead rest) 0).map (· + 1) else closeAt (lookahead (c :: rest)) 0

theorem closeAt_drop (cs : List Char) (k : Nat) :
    closeAt (lookahead cs) k = closeAt (lookahead (cs.drop k)) 0 := by
  induction cs generalizing k with
  | nil => cases k <;> rfl
  | cons c rest ih =>
    cases k with
    | zero => rfl
    | succ k => exact ih k

theorem closing?_eq (cs : List Char) :
    closing? cs (lookahead cs) =
      (closeFromFirst? (cs.drop (negationLength cs))).map (· + negationLength cs) := by
  have hdrop {c : Char} (hc : cs[negationLength cs]? = some c) :
      cs.drop (negationLength cs) = c :: cs.drop (negationLength cs + 1) := by
    obtain ⟨hlt, rfl⟩ := List.getElem?_eq_some_iff.mp hc
    exact List.drop_eq_getElem_cons hlt
  unfold closing?
  simp only
  split
  · rename_i hnone
    rw [List.drop_of_length_le (List.getElem?_eq_none_iff.mp hnone)]
    rfl
  · rename_i hclose
    rw [hdrop hclose, closeFromFirst?, if_pos rfl, closeAt_drop, Option.map_map]
    refine congrArg (Option.map · _) (funext fun n => ?_)
    rw [Function.comp_apply, Nat.add_assoc, Nat.add_comm 1]
  · rename_i c hno hc
    rw [closeAt_drop, hdrop hc, closeFromFirst?, if_neg hno]

theorem closeFromFirst?_of_isPlain {body rest : List Char} (hbody : isPlain body = true)
    (h : closeFromFirst? (body ++ ']' :: rest) = some body.length) (rest' : List Char) :
    closeFromFirst? (body ++ ']' :: rest') = some body.length := by
  cases body with
  | nil =>
    obtain ⟨n, -, hlength⟩ := Option.map_eq_some_iff.mp
      (show (closeAt (lookahead rest) 0).map (· + 1) = some 0 from h)
    omega
  | cons c body =>
    rw [List.cons_append, closeFromFirst?] at h ⊢
    by_cases hc : c = ']'
    · subst hc
      rw [if_pos rfl] at h ⊢
      obtain ⟨n, hn, hlength⟩ := Option.map_eq_some_iff.mp h
      have hclose : closeAt (lookahead (body ++ ']' :: rest)) 0 = some body.length :=
        hn.trans (congrArg some (Nat.add_right_cancel hlength))
      rw [closeAt_of_isPlain (isPlain_cons (by decide) hbody).2 hclose]
      rfl
    · rw [if_neg hc] at h ⊢
      exact closeAt_of_isPlain hbody h rest'

/-- **A plain class closes where it closed before**, whatever follows. -/
theorem closing?_of_isPlain {body rest : List Char} (hbody : isPlain body = true)
    (h : closing? (body ++ ']' :: rest) (lookahead (body ++ ']' :: rest)) = some body.length)
    (rest' : List Char) :
    closing? (body ++ ']' :: rest') (lookahead (body ++ ']' :: rest')) = some body.length := by
  have hlength : negationLength body ≤ body.length := by
    cases body with
    | nil => exact Nat.le_refl 0
    | cons c body =>
      rw [negationLength]
      split
      · exact Nat.succ_le_succ (Nat.zero_le _)
      · exact Nat.zero_le _
  have hnegation (rest : List Char) : negationLength (body ++ ']' :: rest) = negationLength body := by
    cases body with
    | nil => rfl
    | cons c body => rfl
  have hplain : isPlain (body.drop (negationLength body)) = true := by
    cases body with
    | nil => rfl
    | cons c body =>
      rw [negationLength]
      split
      · rename_i hneg
        refine (isPlain_cons ?_ hbody).2
        rintro rfl
        cases hneg
      · exact hbody
  have hclosing (rest : List Char) :
      closing? (body ++ ']' :: rest) (lookahead (body ++ ']' :: rest)) = some body.length ↔
        closeFromFirst? (body.drop (negationLength body) ++ ']' :: rest) =
          some (body.drop (negationLength body)).length := by
    rw [closing?_eq, hnegation, List.drop_append_of_le_length hlength, Option.map_eq_some_iff,
      List.length_drop]
    constructor
    · rintro ⟨n, hn, hsum⟩
      rw [hn, ← hsum, Nat.add_sub_cancel]
    · intro hclose
      exact ⟨_, hclose, Nat.sub_add_cancel hlength⟩
  exact (hclosing rest').mpr (closeFromFirst?_of_isPlain hplain ((hclosing rest).mp h) rest')

end Bracket

namespace Glob

/-! ## 2. Marks -/

/-- Nothing that follows the mark in a text can be joined to it. -/
def Mark.IsClosed : Mark → Prop
  | .char c => c ≠ '\\' ∧ c ≠ '['
  | .escaped _ => True
  | .bracket body => Bracket.isPlain body = true

theorem marksOf_escaped (c : Char) (cs : List Char) :
    marksOf ('\\' :: c :: cs) = .escaped c :: marksOf cs := by
  rw [marksOf, marks.eq_3]
  rfl

/-- A class that is closed is one mark, and what stands behind it is read as if it stood alone. -/
theorem marksOf_class {body rest : List Char}
    (h : Bracket.closing? (body ++ ']' :: rest) (Bracket.lookahead (body ++ ']' :: rest)) =
      some body.length) :
    marksOf ('[' :: (body ++ ']' :: rest)) = .bracket body :: marksOf rest := by
  rw [marksOf, marks.eq_4 _ _ _ fun _ _ h _ => absurd h (by decide), if_pos rfl, tail_lookahead, h]
  simp only [marks_drop, List.take_left']
  rw [List.drop_append, List.drop_of_length_le (Nat.le_succ _)]
  simp

theorem marksOf_unclosed {cs : List Char}
    (h : Bracket.closing? cs (Bracket.lookahead cs) = none) :
    marksOf ('[' :: cs) = .char '[' :: marksOf cs := by
  rw [marksOf, marks.eq_4 _ _ _ fun _ _ h _ => absurd h (by decide), if_pos rfl, tail_lookahead, h]
  rfl

/-- The closing bracket that is named stands between the class and what follows it. -/
theorem exists_eq_of_closing? {cs : List Char} {n : Nat}
    (h : Bracket.closing? cs (Bracket.lookahead cs) = some n) :
    ∃ body rest, cs = body ++ ']' :: rest ∧ body.length = n := by
  obtain ⟨hlt, hclose⟩ := List.getElem?_eq_some_iff.mp (Bracket.closing?_spec h).1
  refine ⟨cs.take n, cs.drop (n + 1), ?_, List.length_take_of_le (Nat.le_of_lt hlt)⟩
  rw [← hclose, ← List.drop_eq_getElem_cons hlt, List.take_append_drop]

/-- **Marks that nothing can be joined to** stay as they are in front of any text. -/
theorem marksOf_append {x : List Char} (h : ∀ m ∈ marksOf x, m.IsClosed) (cs : List Char) :
    marksOf (x ++ cs) = marksOf x ++ marksOf cs := by
  match x with
  | [] => rfl
  | c :: x =>
    by_cases hback : c = '\\'
    · subst hback
      cases x with
      | nil => exact absurd rfl (h (.char '\\') (List.mem_singleton_self _)).1
      | cons c x =>
        rw [marksOf_escaped] at h
        rw [List.cons_append, List.cons_append, marksOf_escaped, marksOf_escaped,
          marksOf_append (List.forall_mem_cons.mp h).2, List.cons_append]
    · by_cases hopen : c = '['
      · subst hopen
        cases hn : Bracket.closing? x (Bracket.lookahead x) with
        | none =>
          rw [marksOf_unclosed hn] at h
          exact absurd rfl (h (.char '[') List.mem_cons_self).2
        | some n =>
          obtain ⟨body, rest, rfl, rfl⟩ := exists_eq_of_closing? hn
          rw [marksOf_class hn] at h ⊢
          obtain ⟨hbody, hrest⟩ := List.forall_mem_cons.mp h
          have hclass := marksOf_class (Bracket.closing?_of_isPlain hbody hn (rest ++ cs))
          rw [List.cons_append, List.append_assoc, List.cons_append, hclass, marksOf_append hrest,
            List.cons_append]
      · rw [marksOf_cons hback hopen] at h
        rw [List.cons_append, marksOf_cons hback hopen, marksOf_cons hback hopen,
          marksOf_append (List.forall_mem_cons.mp h).2, List.cons_append]
termination_by x.length

/-! ## 3. Balanced patterns -/

/-- Every delimiter has its partner, no backslash stands bare, and all classes are plain. -/
def Balanced : Glob → Prop
  | done => True
  | char c rest => c ∉ ['\\', '[', '{', '}', '(', ')'] ∧ rest.Balanced
  | escaped _ rest => rest.Balanced
  | bracket body rest => Bracket.isPlain body = true ∧ rest.Balanced
  | group _ body rest => body.Balanced ∧ rest.Balanced

instance decidableBalanced : (g : Glob) → Decidable g.Balanced
  | done => isTrue trivial
  | char c rest =>
    have := decidableBalanced rest
    inferInstanceAs (Decidable (c ∉ ['\\', '[', '{', '}', '(', ')'] ∧ rest.Balanced))
  | escaped _ rest => decidableBalanced rest
  | bracket body rest =>
    have := decidableBalanced rest
    inferInstanceAs (Decidable (Bracket.isPlain body = true ∧ rest.Balanced))
  | group _ body rest =>
    have := decidableBalanced body
    have := decidableBalanced rest
    inferInstanceAs (Decidable (body.Balanced ∧ rest.Balanced))

/-- How many groups are open in the innermost one. -/
def depth : Glob → Nat
  | done => 0
  | char _ rest => rest.depth
  | escaped _ rest => rest.depth
  | bracket _ rest => rest.depth
  | group _ body rest => max (body.depth + 1) rest.depth

theorem balanced_append {g h : Glob} : (g ++ h).Balanced ↔ g.Balanced ∧ h.Balanced := by
  induction g with
  | done => exact (and_iff_right trivial).symm
  | char c rest ih => exact (and_congr_right fun _ => ih).trans and_assoc.symm
  | escaped c rest ih => exact ih
  | bracket body rest ih => exact (and_congr_right fun _ => ih).trans and_assoc.symm
  | group k body rest _ ih => exact (and_congr_right fun _ => ih).trans and_assoc.symm

theorem depth_append (g h : Glob) : (g ++ h).depth = max g.depth h.depth := by
  induction g with
  | done => exact (Nat.zero_max _).symm
  | char c rest ih => exact ih
  | escaped c rest ih => exact ih
  | bracket body rest ih => exact ih
  | group k body rest _ ih => rw [group_append, depth, ih, depth, Nat.max_assoc]

/-- Nothing that follows a balanced pattern can be joined to it. -/
theorem Balanced.isClosed {g : Glob} (h : g.Balanced) : ∀ m ∈ g.toMarks, m.IsClosed := by
  induction g with
  | done => exact List.forall_mem_nil _
  | char c rest ih =>
    simp only [Balanced, List.mem_cons, not_or] at h
    exact List.forall_mem_cons.mpr ⟨⟨h.1.1, h.1.2.1⟩, ih h.2⟩
  | escaped c rest ih => exact List.forall_mem_cons.mpr ⟨trivial, ih h⟩
  | bracket body rest ih => exact List.forall_mem_cons.mpr ⟨h.1, ih h.2⟩
  | group k body rest ihb ihr =>
    have hdelimiters : (Mark.char k.opener).IsClosed ∧ (Mark.char k.closer).IsClosed := by
      cases k with
      | braces => exact ⟨⟨by decide, by decide⟩, by decide, by decide⟩
      | parens => exact ⟨⟨by decide, by decide⟩, by decide, by decide⟩
    rw [toMarks]
    exact List.forall_mem_append.mpr ⟨List.forall_mem_cons.mpr ⟨hdelimiters.1, ihb h.1⟩,
      List.forall_mem_cons.mpr ⟨hdelimiters.2, ihr h.2⟩⟩

theorem reverseOnto_reverseOnto (g r s : Glob) :
    (g.reverseOnto r).reverseOnto s = r.reverseOnto (g ++ s) := by
  induction g generalizing r with
  | done => rfl
  | char c rest ih => exact ih _
  | escaped c rest ih => exact ih _
  | bracket body rest ih => exact ih _
  | group k body rest _ ih => exact ih _

/-- An opener opens a group while not too many are open. -/
theorem Reading.step_opener (k : Grouping) {r : Reading} (h : r.nesting.depth < maxNesting) :
    r.step (.char k.opener) = ⟨r.nesting.push (.ofChar k.opener) ⟨k, r.items⟩, done⟩ := by
  have hopens : opens? k.opener = some k := by cases k <;> rfl
  simp only [step, hopens, if_pos h]

/-- A closer closes the group of its kind that was opened last. -/
theorem Reading.step_closer (k : Grouping) (n : Nesting Before) (front items : Glob) :
    Reading.step ⟨n.push (.ofChar k.opener) ⟨k, front⟩, items⟩ (.char k.closer) =
      ⟨n, group k (items.reverseOnto done) front⟩ := by
  cases k with
  | braces => rfl
  | parens => rfl

/-- **Reading a balanced pattern** adds its items and leaves the open groups alone. -/
theorem Reading.foldl_toMarks {g : Glob} (h : g.Balanced) {r : Reading}
    (hdepth : r.nesting.depth + g.depth ≤ maxNesting) :
    g.toMarks.foldl step r = { r with items := g.reverseOnto r.items } := by
  induction g generalizing r with
  | done => rfl
  | char c rest ih =>
    have hplain : c ∉ ['{', '}', '(', ')'] := fun hmem =>
      h.1 (List.mem_cons_of_mem _ (List.mem_cons_of_mem _ hmem))
    rw [toMarks, List.foldl_cons, step_plain hplain]
    exact ih h.2 hdepth
  | escaped c rest ih => exact ih h hdepth
  | bracket body rest ih => exact ih h.2 hdepth
  | group k body rest ihb ihr =>
    rw [depth] at hdepth
    have hrest : r.nesting.depth + rest.depth ≤ maxNesting := by omega
    have hopener := step_opener k (r := r) (by omega)
    have hbody := ihb h.1 (r := ⟨r.nesting.push (.ofChar k.opener) ⟨k, r.items⟩, done⟩)
      (by rw [Nesting.depth_push]; omega)
    rw [toMarks, List.foldl_append, List.foldl_cons, List.foldl_cons, hopener, hbody, step_closer,
      reverseOnto_reverseOnto, append_done, reverseOnto]
    exact ihr h.2 hrest

/-! ## 4. Balanced texts -/

/-- What stands behind a balanced pattern is read as if it stood alone. -/
theorem ofMarks_append {g : Glob} (h : g.Balanced) (hdepth : g.depth ≤ maxNesting)
    (ms : List Mark) : ofMarks (g.toMarks ++ ms) = g ++ ofMarks ms := by
  have hread := Reading.foldl_toMarks (r := {}) h (by simpa [Nesting.depth] using hdepth)
  have hfront := soFar_foldl (g.reverseOnto done) ms
  rw [reverseOnto_reverseOnto, append_done] at hfront
  change ((g.toMarks ++ ms).foldl Reading.step {}).soFar = g ++ ofMarks ms
  rw [List.foldl_append, hread]
  exact hfront

variable {x : List Char}

/-- **What stands behind a balanced text** is read as if it stood alone. -/
theorem read_append (h : (read x).Balanced) (hdepth : (read x).depth ≤ maxNesting)
    (cs : List Char) : read (x ++ cs) = read x ++ read cs := by
  have hmarks := marksOf_append (x := x) (by rw [← toMarks_read]; exact h.isClosed) cs
  rw [read, hmarks, ← toMarks_read, ofMarks_append h hdepth]
  rfl

/-- **A balanced text between the delimiters of a group** is the contents of the group. -/
theorem read_group (k : Grouping) (h : (read x).Balanced) (hdepth : (read x).depth < maxNesting)
    (cs : List Char) : read (k.opener :: (x ++ k.closer :: cs)) = group k (read x) (read cs) := by
  have hgroup : (group k (read x) done).Balanced := ⟨h, trivial⟩
  have hmarks : marksOf (k.opener :: (x ++ k.closer :: cs)) =
      (group k (read x) done).toMarks ++ marksOf cs := by
    have hinside := marksOf_append (by rw [← toMarks_read]; exact h.isClosed) (k.closer :: cs)
    rw [marksOf_opener, hinside, marksOf_closer, toMarks, toMarks_read]
    simp [toMarks]
  rw [read, hmarks, ofMarks_append hgroup]
  · rfl
  · rw [depth, depth, Nat.max_zero]
    exact hdepth

/-- A character that stands bare and can neither open nor close anything. -/
theorem read_delimiter {d : Char} (hd : d ∉ ['\\', '[', '{', '}', '(', ')']) (cs : List Char) :
    read (d :: cs) = char d (read cs) := by
  simp only [List.mem_cons, List.not_mem_nil, not_or] at hd
  exact read_cons hd.1 hd.2.1 (opens?_eq_none hd.2.2.1 hd.2.2.2.2.1) cs

theorem pieces_of_not_hasBare {d : Char} {g : Glob} (h : g.hasBare d = false) :
    g.pieces d = [g] := by
  rw [pieces, splitOn_of_not_hasBare h]

theorem pieces_append_char {d : Char} {g : Glob} (h : g.hasBare d = false) (rest : Glob) :
    (g ++ char d rest).pieces d = g :: rest.pieces d := by
  induction g with
  | done => simp only [done_append, pieces, splitOn, if_true]
  | char c g ih =>
    obtain ⟨hc, hg⟩ := Bool.or_eq_false_iff.mp h
    obtain ⟨hfirst, hothers⟩ := List.cons.inj (ih hg)
    simp only [char_append, pieces, splitOn, if_neg (ne_of_beq_false hc), hfirst, hothers]
  | escaped c g ih =>
    obtain ⟨hfirst, hothers⟩ := List.cons.inj (ih h)
    simp only [escaped_append, pieces, splitOn, hfirst, hothers]
  | bracket body g ih =>
    obtain ⟨hfirst, hothers⟩ := List.cons.inj (ih h)
    simp only [bracket_append, pieces, splitOn, hfirst, hothers]
  | group k body g _ ih =>
    obtain ⟨hfirst, hothers⟩ := List.cons.inj (ih h)
    simp only [group_append, pieces, splitOn, hfirst, hothers]

/-- A text that may stand between delimiters in a group: it is balanced, no delimiter stands bare at
    its own level, and all its groups can be open within the group. -/
structure IsAlternative (d : Char) (x : List Char) : Prop where
  balanced : (read x).Balanced
  depth : (read x).depth < maxNesting
  bare : (read x).hasBare d = false

instance (d : Char) (x : List Char) : Decidable (IsAlternative d x) :=
  decidable_of_iff ((read x).Balanced ∧ (read x).depth < maxNesting ∧ (read x).hasBare d = false)
    ⟨fun h => ⟨h.1, h.2.1, h.2.2⟩, fun h => ⟨h.balanced, h.depth, h.bare⟩⟩

/-- **Balanced texts with delimiters between them** are the pieces of what is read. -/
theorem read_intercalate {d : Char} (hd : d ∉ ['\\', '[', '{', '}', '(', ')'])
    {x : List Char} {xs : List (List Char)} (h : ∀ y ∈ x :: xs, IsAlternative d y) :
    (read ([d].intercalate (x :: xs))).Balanced ∧
      (read ([d].intercalate (x :: xs))).depth < maxNesting ∧
      (read ([d].intercalate (x :: xs))).pieces d = (x :: xs).map read := by
  obtain ⟨hx, hxs⟩ := List.forall_mem_cons.mp h
  induction xs generalizing x with
  | nil =>
    have hone : [d].intercalate [x] = x := by simp [List.intercalate]
    rw [hone]
    exact ⟨hx.balanced, hx.depth, pieces_of_not_hasBare hx.bare⟩
  | cons y xs ih =>
    obtain ⟨hy, hxs'⟩ := List.forall_mem_cons.mp hxs
    obtain ⟨hbalanced, hdepth, hpieces⟩ := ih hxs hy hxs'
    have hmore : [d].intercalate (x :: y :: xs) = x ++ d :: [d].intercalate (y :: xs) := by
      simp [List.intercalate, List.intersperse]
    rw [hmore, read_append hx.balanced (Nat.le_of_lt hx.depth), read_delimiter hd]
    refine ⟨balanced_append.mpr ⟨hx.balanced, hd, hbalanced⟩, ?_, ?_⟩
    · rw [depth_append]
      exact max_lt hx.depth hdepth
    · rw [pieces_append_char hx.bare, hpieces]
      rfl

end Glob

end Wildcard
