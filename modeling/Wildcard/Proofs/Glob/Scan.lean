import Wildcard.Proofs.Glob.Balanced

/-!
# The closing bracket, read forward

The table that `Bracket.lookahead` builds from right to left says of every place what reading forward
from there finds: the next `:]` (`nameEnd_lookahead`) and the bracket that closes a class
(`closeAt_lookahead`). So what is said of a class can be proved along the forward reading.

* `endBackslashes_scan`: the closing bracket that is found does not stand behind an odd run of
  backslashes.
* `closing?_members`: nor does the one of a class, and something stands between the two brackets and
  behind the character that negates the class.
-/

namespace Wildcard.Bracket

/-! ## 1. The table and the forward reading -/

/-- The table says how far it is to the next `:]`. -/
theorem nameEnd_lookahead (cs : List Char) (k : Nat) :
    (lookahead cs)[k]?.bind (·.nameEnd) = nameEnd? (cs.drop k) := by
  induction cs generalizing k with
  | nil => cases k <;> rfl
  | cons c rest ih =>
    cases k with
    | succ k => exact ih k
    | zero =>
      have hrest := ih 0
      rw [List.drop_zero] at hrest
      simp only [lookahead, List.getElem?_cons_zero, Option.bind_some, List.drop_zero, hrest]
      by_cases hname : c = ':' ∧ rest.head? = some ']'
      · obtain ⟨rfl, hhead⟩ := hname
        obtain ⟨rest', rfl⟩ := List.head?_eq_some_iff.mp hhead
        rfl
      · rw [if_neg hname, nameEnd?.eq_2 _ _ fun rest' hc hrest' => hname ⟨hc, by rw [hrest']; rfl⟩]

/-- What the table says of a place, in terms of what it says of the places behind. -/
theorem closeAt_cons (c : Char) (rest : List Char) :
    closeAt (lookahead (c :: rest)) 0 =
      if c = '\\' then (closeAt (lookahead (rest.drop 1)) 0).map (· + 2)
      else if c = ']' then some 0
      else if c = '[' ∧ rest.head? = some ':' then
        match nameEnd? (rest.drop 1) with
        | some d => (closeAt (lookahead (rest.drop (d + 3))) 0).map (· + (d + 4))
        | none => (closeAt (lookahead rest) 0).map (· + 1)
      else (closeAt (lookahead rest) 0).map (· + 1) := by
  rw [← nameEnd_lookahead, ← closeAt_drop rest 1]
  simp only [← closeAt_drop rest]
  rfl

/-- **The table says what reading forward finds.** -/
theorem closeAt_lookahead (cs : List Char) : closeAt (lookahead cs) 0 = scan cs := by
  fun_induction scan cs with
  | case1 => rfl
  | case2 rest ih => rw [closeAt_cons, if_pos rfl, ih]
  | case3 rest => rfl
  | case4 rest d hd ih =>
    rw [closeAt_cons, if_neg (by decide), if_neg (by decide), if_pos ⟨rfl, rfl⟩,
      List.drop_succ_cons, List.drop_zero, hd, ← ih]
    rfl
  | case5 rest hnone ih =>
    rw [closeAt_cons, if_neg (by decide), if_neg (by decide), if_pos ⟨rfl, rfl⟩,
      List.drop_succ_cons, List.drop_zero, hnone, ← ih]
  | case6 c rest hback hclose hname ih =>
    have hno : ¬ (c = '[' ∧ rest.head? = some ':') := by
      intro ⟨hc, hhead⟩
      obtain ⟨rest', hrest⟩ := List.head?_eq_some_iff.mp hhead
      exact hname rest' hc hrest
    rw [closeAt_cons, if_neg hback, if_neg hclose, if_neg hno, ih]

/-- The next `:]` that is found stands where it is said to. -/
theorem drop_nameEnd? {cs : List Char} {d : Nat} (h : nameEnd? cs = some d) :
    ∃ name rest, cs = name ++ ':' :: ']' :: rest ∧ name.length = d := by
  fun_induction nameEnd? cs generalizing d with
  | case1 rest =>
    cases h
    exact ⟨[], rest, rfl, rfl⟩
  | case2 c rest _ ih =>
    obtain ⟨d', hd', rfl⟩ := Option.map_eq_some_iff.mp h
    obtain ⟨name, rest', rfl, rfl⟩ := ih hd'
    exact ⟨c :: name, rest', rfl, rfl⟩
  | case3 => cases h

/-! ## 2. Runs of backslashes -/

/-- How many backslashes a text ends with. -/
def endBackslashes (cs : List Char) : Nat := (cs.reverse.takeWhile (· == '\\')).length

theorem endBackslashes_backslash (cs : List Char) :
    endBackslashes (cs ++ ['\\']) = endBackslashes cs + 1 := by
  simp [endBackslashes]

theorem endBackslashes_other {c : Char} (hc : c ≠ '\\') (cs : List Char) :
    endBackslashes (cs ++ [c]) = 0 := by
  simp [endBackslashes, hc]

/-- Behind an escaped character the run of backslashes is as even as it was before. -/
theorem endBackslashes_escaped {cs : List Char} (h : endBackslashes cs % 2 = 0) (c : Char) :
    endBackslashes (cs ++ ['\\', c]) % 2 = 0 := by
  have hsplit : cs ++ ['\\', c] = (cs ++ ['\\']) ++ [c] := by simp
  rw [hsplit]
  by_cases hc : c = '\\'
  · rw [hc, endBackslashes_backslash, endBackslashes_backslash]
    omega
  · rw [endBackslashes_other hc]

/-- **The closing bracket is not escaped**: reading forward steps over every backslash together with
    the character behind it. -/
theorem endBackslashes_scan {front cs : List Char} {n : Nat} (h : scan cs = some n)
    (hfront : endBackslashes front % 2 = 0) : endBackslashes (front ++ cs.take n) % 2 = 0 := by
  fun_induction scan cs generalizing front n with
  | case1 => cases h
  | case2 rest ih =>
    obtain ⟨m, hm, rfl⟩ := Option.map_eq_some_iff.mp h
    cases rest with
    | nil =>
      rw [List.drop_nil, scan] at hm
      cases hm
    | cons c rest =>
      have hrest := ih hm (endBackslashes_escaped hfront c)
      simpa [List.append_assoc] using hrest
  | case3 rest =>
    cases h
    simpa using hfront
  | case4 rest d hd ih =>
    obtain ⟨m, hm, rfl⟩ := Option.map_eq_some_iff.mp h
    obtain ⟨name, rest', rfl, rfl⟩ := drop_nameEnd? hd
    -- whatever the name holds, the bracket behind it is no backslash
    have hname : endBackslashes (front ++ ('[' :: ':' :: name ++ [':', ']'])) % 2 = 0 := by
      have hsplit : front ++ ('[' :: ':' :: name ++ [':', ']']) =
          (front ++ '[' :: ':' :: name ++ [':']) ++ [']'] := by simp
      rw [hsplit, endBackslashes_other (by decide)]
    have hdrop : (name ++ ':' :: ']' :: rest').drop (name.length + 2) = rest' := by
      rw [List.drop_length_add_append]
      rfl
    have htake : ('[' :: ':' :: (name ++ ':' :: ']' :: rest')).take (m + (name.length + 4)) =
        ('[' :: ':' :: name ++ [':', ']']) ++ rest'.take m := by
      have hlength : m + (name.length + 4) = ('[' :: ':' :: name ++ [':', ']']).length + m := by
        simp only [List.length_append, List.length_cons, List.length_nil]
        omega
      rw [hlength, ← List.take_length_add_append]
      simp
    rw [hdrop] at hm ih
    rw [htake, ← List.append_assoc]
    exact ih hm hname
  | case5 rest hnone ih =>
    obtain ⟨m, hm, rfl⟩ := Option.map_eq_some_iff.mp h
    have hnext : endBackslashes (front ++ ['[']) % 2 = 0 := by
      rw [endBackslashes_other (by decide)]
    have hrest := ih hm hnext
    simpa using hrest
  | case6 c rest hback hclose hname ih =>
    obtain ⟨m, hm, rfl⟩ := Option.map_eq_some_iff.mp h
    have hnext : endBackslashes (front ++ [c]) % 2 = 0 := by rw [endBackslashes_other hback]
    have hrest := ih hm hnext
    simpa using hrest

/-! ## 3. The closing bracket of a class -/

theorem closeFromFirst?_spec {front cs : List Char} {n : Nat} (h : closeFromFirst? cs = some n)
    (hfront : endBackslashes front % 2 = 0) :
    0 < n ∧ endBackslashes (front ++ cs.take n) % 2 = 0 := by
  cases cs with
  | nil => cases h
  | cons c rest =>
    rw [closeFromFirst?] at h
    by_cases hc : c = ']'
    · rw [if_pos hc, closeAt_lookahead] at h
      obtain ⟨m, hm, rfl⟩ := Option.map_eq_some_iff.mp h
      have hmember : endBackslashes (front ++ [c]) % 2 = 0 := by
        rw [hc, endBackslashes_other (by decide)]
      have hrest := endBackslashes_scan hm hmember
      exact ⟨Nat.succ_pos m, by simpa using hrest⟩
    · rw [if_neg hc] at h
      have hplace := getElem?_closeAt h
      rw [closeAt_lookahead] at h
      refine ⟨Nat.pos_of_ne_zero fun hzero => hc ?_, endBackslashes_scan h hfront⟩
      rw [hzero] at hplace
      exact Option.some.inj hplace

/-- **A class holds something** behind the character that negates it, and the bracket that closes it
    is not escaped. -/
theorem closing?_members {front cs : List Char} {n : Nat}
    (h : closing? cs (lookahead cs) = some n) (hfront : endBackslashes front % 2 = 0) :
    negationLength cs < n ∧ endBackslashes (front ++ cs.take n) % 2 = 0 := by
  rw [closing?_eq] at h
  obtain ⟨m, hm, rfl⟩ := Option.map_eq_some_iff.mp h
  have hsign : endBackslashes (front ++ cs.take (negationLength cs)) % 2 = 0 := by
    cases cs with
    | nil => simpa [negationLength] using hfront
    | cons c rest =>
      rw [negationLength]
      split
      · rename_i hnegation
        have hc : c ≠ '\\' := by
          rintro rfl
          cases hnegation
        rw [List.take_succ_cons, List.take_zero, endBackslashes_other hc]
      · simpa using hfront
  obtain ⟨hpos, heven⟩ := closeFromFirst?_spec hm hsign
  refine ⟨by omega, ?_⟩
  rw [Nat.add_comm, List.take_add, ← List.append_assoc]
  exact heven

end Wildcard.Bracket
