import Wildcard.Glob.Span
import Wildcard.Proofs.Glob.Reading

/-!
# Reading stays inside the pattern and its tables

Reading a pattern takes what a table says of some place, and takes a place behind the end of the
table for one of which nothing is known. Nothing rests on this: reading that fails at such a place
reads every pattern (`readInside?_eq`), and all delimiters are places of the pattern
(`pairs_inside`).
-/

namespace Wildcard

/-! ## 1. Look-ups that may fail -/

/-- The places of a text that has been read up to one of them. -/
theorem getElem?_of_drop {cs rest : List Char} {c : Char} {i : Nat} (h : cs.drop i = c :: rest) :
    cs[i]? = some c ∧ cs.drop (i + 1) = rest := by
  refine ⟨?_, ?_⟩
  · rw [← List.head?_drop, h]
    rfl
  · rw [← List.tail_drop, h]
    rfl

namespace Bracket

variable {cs : List Char} {table : List Ahead} {k : Nat}

/-- The closing bracket seen from place `k` of a table that reaches that far. -/
def closeInside? (table : List Ahead) (k : Nat) : Option (Option Nat) := table[k]?.map (·.close)

/-- The next `:]` seen from place `k` of a table that reaches that far. -/
def nameEndInside? (table : List Ahead) (k : Nat) : Option (Option Nat) :=
  table[k]?.map (·.nameEnd)

theorem closeInside?_eq (h : k < table.length) :
    closeInside? table k = some (closeAt table k) := by
  rw [closeInside?, closeAt, List.getElem?_eq_getElem h]
  rfl

theorem nameEndInside?_eq (h : k < table.length) :
    nameEndInside? table k = some (table[k]?.bind (·.nameEnd)) := by
  rw [nameEndInside?, List.getElem?_eq_getElem h]
  rfl

/-- The table for a text, unless a look-up of it fails. -/
def lookaheadInside? : List Char → Option (List Ahead)
  | [] => some [⟨none, none⟩]
  | c :: rest => do
    let table ← lookaheadInside? rest
    let step := (← closeInside? table 0).map (· + 1)
    let close ←
      if c = '\\' then
        if rest = [] then some none else (closeInside? table 1).map (·.map (· + 2))
      else if c = ']' then some (some 0)
      else if c = '[' ∧ rest.head? = some ':' then
        match ← nameEndInside? table 1 with
        | some d => (closeInside? table (d + 3)).map (·.map (· + (d + 4)))
        | none => some step
      else some step
    let name ← nameEndInside? table 0
    let nameEnd := if c = ':' ∧ rest.head? = some ']' then some 0 else name.map (· + 1)
    return ⟨close, nameEnd⟩ :: table

/-- The next `:]` that a table names stands inside the text. -/
theorem nameEnd_inside {d : Nat} (h : (lookahead cs)[k]?.bind (·.nameEnd) = some d) :
    k + d + 2 ≤ cs.length := by
  induction cs generalizing k d with
  | nil =>
    cases k with
    | zero => cases h
    | succ k => cases h
  | cons c rest ih =>
    cases k with
    | succ k =>
      have hrest := ih h
      rw [List.length_cons]
      omega
    | zero =>
      simp only [lookahead, List.getElem?_cons_zero, Option.bind_some] at h
      split at h
      · rename_i hname
        cases h
        obtain ⟨rest', rfl⟩ := List.head?_eq_some_iff.mp hname.2
        simp
      · obtain ⟨d', hd', rfl⟩ := Option.map_eq_some_iff.mp h
        have hrest := ih hd'
        rw [List.length_cons]
        omega

/-- **No look-up of a table leaves it.** -/
theorem lookaheadInside?_eq (cs : List Char) : lookaheadInside? cs = some (lookahead cs) := by
  induction cs with
  | nil => rfl
  | cons c rest ih =>
    have hlength := length_lookahead rest
    have h0 : 0 < (lookahead rest).length := by omega
    rw [lookaheadInside?, ih]
    simp only [Option.bind_eq_bind, Option.bind_some, closeInside?_eq h0, nameEndInside?_eq h0,
      lookahead]
    by_cases hescape : c = '\\'
    · simp only [if_pos hescape]
      by_cases hend : rest = []
      · subst hend
        rfl
      · have h1 : 1 < (lookahead rest).length := by
          have := List.length_pos_iff.mpr hend
          omega
        rw [if_neg hend, closeInside?_eq h1]
        rfl
    · simp only [if_neg hescape]
      by_cases hclose : c = ']'
      · simp only [if_pos hclose]
        rfl
      · simp only [if_neg hclose]
        by_cases hname : c = '[' ∧ rest.head? = some ':'
        · have h1 : 1 < (lookahead rest).length := by
            obtain ⟨rest', rfl⟩ := List.head?_eq_some_iff.mp hname.2
            simp
          simp only [if_pos hname, nameEndInside?_eq h1, Option.bind_some]
          cases hd : (lookahead rest)[1]?.bind (·.nameEnd) with
          | none => rfl
          | some d =>
            have hinside := nameEnd_inside hd
            have h3 : d + 3 < (lookahead rest).length := by omega
            simp only [closeInside?_eq h3]
            rfl
        · simp only [if_neg hname]
          rfl

/-- How far it is to the closing bracket of a class, unless a look-up fails. -/
def closingInside? (cs : List Char) (table : List Ahead) : Option (Option Nat) :=
  let start := negationLength cs
  if cs.length ≤ start then some none
  else
    cs[start]?.bind fun c =>
      if c = ']' then (closeInside? table (start + 1)).map (·.map (· + (start + 1)))
      else (closeInside? table start).map (·.map (· + start))

theorem closingInside?_eq (cs : List Char) :
    closingInside? cs (lookahead cs) = some (closing? cs (lookahead cs)) := by
  have hlength := length_lookahead cs
  unfold closingInside? closing?
  generalize negationLength cs = start
  simp only
  by_cases hend : cs.length ≤ start
  · rw [if_pos hend, List.getElem?_eq_none hend]
  · have hstart : start < cs.length := by omega
    have h1 : start + 1 < (lookahead cs).length := by omega
    have h0 : start < (lookahead cs).length := by omega
    rw [if_neg hend, List.getElem?_eq_getElem hstart, Option.bind_some, closeInside?_eq h1,
      closeInside?_eq h0]
    split
    · rename_i hclose
      rw [hclose]
      rfl
    · rename_i hclose
      split
      · rename_i heq
        cases heq
      · rename_i heq
        exact absurd (Option.some.inj heq) hclose
      · rfl

end Bracket

namespace Glob

/-! ## 2. Reading a pattern -/

/-- The marks of a text, unless a look-up fails. -/
def marksInside? : Nat → List Char → List Bracket.Ahead → Option (List Mark)
  | _, [], _ => some []
  | n + 1, _ :: rest, table => marksInside? n rest table.tail
  | 0, '\\' :: c :: rest, table =>
    (marksInside? 0 rest table.tail.tail).map (.escaped c :: ·)
  | 0, c :: rest, table =>
    (if c = '[' then Bracket.closingInside? rest table.tail else some none).bind fun
      | some n => (marksInside? (n + 1) rest table.tail).map (.bracket (rest.take n) :: ·)
      | none => (marksInside? 0 rest table.tail).map (.char c :: ·)

theorem marksInside?_eq (n : Nat) (cs : List Char) (table : List Bracket.Ahead)
    (h : table = Bracket.lookahead cs) : marksInside? n cs table = some (marks n cs table) := by
  have hclosing (c : Char) (rest : List Char) (table : List Bracket.Ahead)
      (htail : table.tail = Bracket.lookahead rest) :
      (if c = '[' then Bracket.closingInside? rest table.tail else some none) =
        some (if c = '[' then Bracket.closing? rest table.tail else none) := by
    rw [htail, Bracket.closingInside?_eq]
    split <;> rfl
  fun_induction marks n cs table with
  | case1 => simp [marksInside?]
  | case2 n c rest table ih =>
    rw [marksInside?]
    exact ih (by rw [h, tail_lookahead])
  | case3 c rest table ih =>
    rw [marksInside?, ih (by rw [h, tail_lookahead, tail_lookahead])]
    rfl
  | case4 c rest table hno n hn ih =>
    have htail : table.tail = Bracket.lookahead rest := by rw [h, tail_lookahead]
    rw [marksInside?.eq_4 _ _ _ hno, hclosing c rest table htail, hn, Option.bind_some]
    simp only
    rw [ih htail]
    rfl
  | case5 c rest table hno hn ih =>
    have htail : table.tail = Bracket.lookahead rest := by rw [h, tail_lookahead]
    rw [marksInside?.eq_4 _ _ _ hno, hclosing c rest table htail, hn, Option.bind_some]
    simp only
    rw [ih htail]
    rfl

/-- A pattern as it is read by look-ups that may fail. -/
def readInside? (cs : List Char) : Option Glob := do
  let table ← Bracket.lookaheadInside? cs
  return ofMarks (← marksInside? 0 cs table)

/-- **Every pattern is read without leaving its tables.** -/
theorem readInside?_eq (cs : List Char) : readInside? cs = some (read cs) := by
  rw [readInside?, Bracket.lookaheadInside?_eq]
  simp only [Option.bind_eq_bind, Option.bind_some, marksInside?_eq 0 cs _ rfl]
  rfl

/-! ## 3. The places of delimiters -/

theorem mem_pairs_inside {g : Glob} {start : Nat} {p : Nat × Nat} (h : p ∈ g.pairs start) :
    start ≤ p.1 ∧ p.1 < p.2 ∧ p.2 < start + g.length := by
  induction g generalizing start with
  | done => cases h
  | char c rest ih =>
    have hrest := ih h
    rw [length]
    omega
  | escaped c rest ih =>
    have hrest := ih h
    rw [length]
    omega
  | bracket body rest ih =>
    rw [length]
    rcases List.mem_cons.mp h with rfl | h
    · simp only
      omega
    · have hrest := ih h
      omega
  | group k body rest ihb ihr =>
    rw [length]
    rcases List.mem_cons.mp h with rfl | h
    · simp only
      omega
    · rcases List.mem_append.mp h with h | h
      · have hbody := ihb h
        omega
      · have hrest := ihr h
        omega

/-- **All delimiters are places of the pattern**, each opener before its closer. -/
theorem pairs_inside {cs : List Char} {p : Nat × Nat} (h : p ∈ pairsOf cs) :
    p.1 < p.2 ∧ p.2 < cs.length := by
  have hinside := mem_pairs_inside h
  rw [← length_text, text_read] at hinside
  omega

end Glob

end Wildcard
