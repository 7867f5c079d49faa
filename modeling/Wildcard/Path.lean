/-!
# Separators of a path

A candidate may be written with backslashes between its segments. `unify` writes a slash for each
run of backslashes, and afterwards there is no backslash left (`backslash_not_mem_unify`).
-/

namespace Wildcard.Path

/-- Writes one slash for each run of backslashes; the flag says that the character before was a
    backslash. -/
def unifyFrom : Bool → List Char → List Char
  | _, [] => []
  | inRun, c :: rest =>
    if c = '\\' then if inRun then unifyFrom true rest else '/' :: unifyFrom true rest
    else c :: unifyFrom false rest

/-- Writes one slash for each run of backslashes. -/
def unify (cs : List Char) : List Char := unifyFrom false cs

theorem backslash_not_mem_unifyFrom (b : Bool) (cs : List Char) : '\\' ∉ unifyFrom b cs := by
  induction cs generalizing b with
  | nil => simp [unifyFrom]
  | cons c rest ih =>
    simp only [unifyFrom]
    split
    · split <;> simp [ih]
    · rename_i h
      simp [ih, Ne.symm h]

/-- No backslash is left. -/
theorem backslash_not_mem_unify (cs : List Char) : '\\' ∉ unify cs :=
  backslash_not_mem_unifyFrom false cs

/-- A path without backslashes is kept. -/
theorem unify_of_not_mem {cs : List Char} (h : '\\' ∉ cs) : unify cs = cs := by
  unfold unify
  induction cs with
  | nil => rfl
  | cons c rest ih =>
    simp only [List.mem_cons, not_or] at h
    simp [unifyFrom, Ne.symm h.1, ih h.2]

end Wildcard.Path
