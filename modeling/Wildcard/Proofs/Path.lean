import Wildcard.Path

/-!
# Texts made of segments

A text is cut at its separators into segments, and is made up of them again.

* `splitOn_eq_iff`: the segments of a text are the texts without separators that make it up.
* `unify_append`, `unify_backslash`: what writing separators for backslashes does to a text.
-/

namespace Wildcard.Path

/-! ## 1. Segments -/

/-- Segments with a separator in front of each. -/
def behind (xs : List (List Char)) : List Char := xs.flatMap ('/' :: ·)

@[simp] theorem behind_nil : behind [] = [] := rfl

@[simp] theorem behind_cons (x : List Char) (xs : List (List Char)) :
    behind (x :: xs) = '/' :: (x ++ behind xs) := rfl

@[simp] theorem behind_append (xs ys : List (List Char)) :
    behind (xs ++ ys) = behind xs ++ behind ys := List.flatMap_append

theorem intercalate_cons (x : List Char) (xs : List (List Char)) :
    ['/'].intercalate (x :: xs) = x ++ behind xs := by
  induction xs generalizing x with
  | nil => simp [List.intercalate]
  | cons y xs ih =>
    rw [behind_cons, ← ih y]
    simp [List.intercalate, List.intersperse]

theorem length_splitOn (c : List Char) : (c.splitOn '/').length = c.count '/' + 1 := by
  induction c with
  | nil => rfl
  | cons d c ih =>
    rw [List.splitOn_cons_eq_if_modifyHead]
    split
    · rename_i hd
      rw [beq_iff_eq.mp hd, List.length_cons, ih, List.count_cons_self]
    · rename_i hd
      rw [List.length_modifyHead, ih, List.count_cons_of_ne (mt beq_iff_eq.mpr hd)]

theorem not_mem_of_mem_splitOn (c : List Char) : ∀ y ∈ c.splitOn '/', '/' ∉ y := by
  induction c with
  | nil => simp
  | cons d c ih =>
    rw [List.splitOn_cons_eq_if_modifyHead]
    split
    · exact List.forall_mem_cons.mpr ⟨by simp, ih⟩
    · rename_i hd
      obtain ⟨x, xs, hx⟩ := List.exists_cons_of_ne_nil (List.splitOn_ne_nil '/' c)
      rw [hx] at ih ⊢
      obtain ⟨hfirst, hothers⟩ := List.forall_mem_cons.mp ih
      refine List.forall_mem_cons.mpr ⟨?_, hothers⟩
      intro h
      rcases List.mem_cons.mp h with h | h
      · exact hd (beq_iff_eq.mpr h.symm)
      · exact hfirst h

/-- Cutting at the separators gives the segments of a text. -/
theorem splitOn_eq_iff {c : List Char} {xs : List (List Char)} :
    c.splitOn '/' = xs ↔ xs ≠ [] ∧ (∀ x ∈ xs, '/' ∉ x) ∧ c = ['/'].intercalate xs := by
  constructor
  · intro h
    rw [← h]
    exact ⟨List.splitOn_ne_nil '/' c, not_mem_of_mem_splitOn c, (List.intercalate_splitOn '/').symm⟩
  · intro ⟨hne, hxs, hc⟩
    rw [hc]
    exact List.splitOn_intercalate '/' hxs hne

/-- Segments in front of others, with a separator behind each. -/
theorem intercalate_append (ws : List (List Char)) {ys : List (List Char)} (h : ys ≠ []) :
    ['/'].intercalate (ws ++ ys) = ws.flatMap (· ++ ['/']) ++ ['/'].intercalate ys := by
  obtain ⟨y, ys, rfl⟩ := List.exists_cons_of_ne_nil h
  induction ws with
  | nil => rfl
  | cons w ws ih =>
    have hbehind (z : List Char) (zs : List (List Char)) :
        behind (z :: zs) = '/' :: ['/'].intercalate (z :: zs) := by
      rw [intercalate_cons, behind_cons]
    have hrest : behind (ws ++ y :: ys) = '/' :: ['/'].intercalate (ws ++ y :: ys) := by
      cases ws with
      | nil => exact hbehind y ys
      | cons z zs => exact hbehind z (zs ++ y :: ys)
    rw [List.cons_append, intercalate_cons, hrest, ih]
    simp

/-! ## 2. Backslashes as separators -/

theorem unifyFrom_of_not_mem {cs : List Char} (h : '\\' ∉ cs) (inRun : Bool) :
    unifyFrom inRun cs = cs := by
  cases cs with
  | nil => rfl
  | cons c rest =>
    obtain ⟨hc, hrest⟩ := not_or.mp (mt List.mem_cons.mpr h)
    rw [unifyFrom, if_neg (Ne.symm hc)]
    exact congrArg (c :: ·) (unify_of_not_mem hrest)

theorem unify_cons {c : Char} (h : c ≠ '\\') (rest : List Char) :
    unify (c :: rest) = c :: unify rest := by
  rw [unify, unifyFrom, if_neg h]
  rfl

theorem unify_append {cs : List Char} (h : '\\' ∉ cs) (rest : List Char) :
    unify (cs ++ rest) = cs ++ unify rest := by
  induction cs with
  | nil => rfl
  | cons c cs ih =>
    obtain ⟨hc, hcs⟩ := not_or.mp (mt List.mem_cons.mpr h)
    rw [List.cons_append, unify_cons (Ne.symm hc), ih hcs, List.cons_append]

/-- One backslash alone becomes a separator. -/
theorem unify_backslash {cs : List Char} (h : '\\' ∉ cs) :
    unify ('\\' :: cs) = '/' :: cs := by
  have hrest : unifyFrom true cs = cs := unifyFrom_of_not_mem h true
  rw [unify, unifyFrom, if_pos rfl, hrest]
  rfl

/-- Separators stay, and the first backslash becomes one more. -/
theorem count_lt_count_unify {cs : List Char} (h : '\\' ∈ cs) :
    cs.count '/' < (unify cs).count '/' := by
  have hkept : ∀ (cs : List Char) (inRun : Bool), cs.count '/' ≤ (unifyFrom inRun cs).count '/' := by
    intro cs
    induction cs with
    | nil => exact fun _ => Nat.le_refl _
    | cons c rest ih =>
      intro inRun
      rw [unifyFrom]
      split
      · rename_i hc
        rw [List.count_cons_of_ne (by rw [hc]; decide)]
        split
        · exact ih true
        · exact Nat.le_trans (ih true) List.count_le_count_cons
      · rw [List.count_cons, List.count_cons]
        exact Nat.add_le_add_right (ih false) _
  induction cs with
  | nil => cases h
  | cons c rest ih =>
    by_cases hc : c = '\\'
    · rw [unify, unifyFrom, if_pos hc, hc, List.count_cons_of_ne (by decide)]
      exact Nat.lt_of_le_of_lt (hkept rest true) (by rw [if_neg (by decide)]; simp)
    · have hrest := (List.mem_cons.mp h).resolve_left (Ne.symm hc)
      rw [unify_cons hc, List.count_cons, List.count_cons]
      exact Nat.add_lt_add_right (ih hrest) _

/-- Where there is a backslash, there is a separator afterwards. -/
theorem separator_mem_unify {cs : List Char} (h : '\\' ∈ cs) : '/' ∈ unify cs :=
  List.count_pos_iff.mp (Nat.zero_lt_of_lt (count_lt_count_unify h))

end Wildcard.Path
