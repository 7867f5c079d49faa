import Wildcard.Proofs.Glob.Scan

/-!
# Texts of the balanced grammar

Texts in which every delimiter has its partner by the way they are put together: characters without
meaning, escaped characters, classes, and groups around such texts. Reading finds just these
partners, as long as no more groups are nested than may be open at a time.

* `Generated`: the grammar, with the depth of a text and the places of its delimiters.
* `closing?_of_isClassBody`: a class of the grammar closes where it is meant to.
* `IsTree`: the tree of a generated text; one lemma for each rule of the grammar.
* `pairsOf_of_generated`: the delimiters that reading pairs are those of the grammar.
-/

namespace Wildcard.Glob

/-! ## 1. The grammar -/

/-- What stands between the brackets of a class of the grammar: a character that negates it or none,
    and members that are no delimiters and no backslashes. Without a character that negates the class
    the first member is none. -/
def IsClassBody (body : List Char) : Prop :=
  ∃ sign members, body = sign ++ members ∧ sign ∈ [[], ['!'], ['^']] ∧ members ≠ [] ∧
    (∀ c ∈ members, c ∉ ['[', ']', '\\']) ∧
      (sign = [] → ∀ c ∈ members.head?, c ∉ ['!', '^'])

/-- Two places that lie further on. -/
def shift (n : Nat) (p : Nat × Nat) : Nat × Nat := (p.1 + n, p.2 + n)

/-- **The texts of the grammar**, each with the number of groups that are open in the innermost one
    and with the places of its delimiters, partner by partner in the order of the openers. -/
inductive Generated : Nat → List Char → List (Nat × Nat) → Prop
  | done : Generated 0 [] []
  | char {n : Nat} {c : Char} {cs : List Char} {ps : List (Nat × Nat)} :
      c ∉ ['\\', '\x7b', '\x7d', '(', ')', '[', ']'] → Generated n cs ps →
        Generated n (c :: cs) (ps.map (shift 1))
  | escaped {n : Nat} {cs : List Char} {ps : List (Nat × Nat)} (c : Char) :
      Generated n cs ps → Generated n ('\\' :: c :: cs) (ps.map (shift 2))
  | bracket {n : Nat} {body cs : List Char} {ps : List (Nat × Nat)} :
      IsClassBody body → Generated n cs ps →
        Generated n ('[' :: (body ++ ']' :: cs))
          ((0, body.length + 1) :: ps.map (shift (body.length + 2)))
  | group {n m : Nat} {inside cs : List Char} {ps qs : List (Nat × Nat)} (k : Grouping) :
      Generated n inside ps → Generated m cs qs →
        Generated (max (n + 1) m) (k.opener :: (inside ++ k.closer :: cs))
          ((0, inside.length + 1) :: (ps.map (shift 1) ++ qs.map (shift (inside.length + 2))))

/-! ## 2. Classes -/

/-- No character of the text is a bracket or a backslash. -/
def BracketFree (cs : List Char) : Prop := ∀ c ∈ cs, c ∉ ['[', ']', '\\']

theorem isPlain_of_bracketFree {cs : List Char} (h : BracketFree cs) :
    Bracket.isPlain cs = true := by
  induction cs with
  | nil => rfl
  | cons c cs ih =>
    obtain ⟨hc, hcs⟩ := List.forall_mem_cons.mp h
    simp only [List.mem_cons, List.not_mem_nil, or_false, not_or] at hc
    rw [Bracket.isPlain.eq_3 _ _ fun _ _ hback _ => hc.2.2 hback, ih hcs, bne_iff_ne.mpr hc.1]
    rfl

/-- Reading forward from a text without brackets and backslashes finds the bracket behind it. -/
theorem scan_bracketFree {cs : List Char} (h : BracketFree cs) (rest : List Char) :
    Bracket.scan (cs ++ ']' :: rest) = some cs.length := by
  induction cs with
  | nil => rw [List.nil_append, Bracket.scan, List.length_nil]
  | cons c cs ih =>
    obtain ⟨hc, hcs⟩ := List.forall_mem_cons.mp h
    simp only [List.mem_cons, List.not_mem_nil, or_false, not_or] at hc
    obtain ⟨hopen, hclose, hback⟩ := hc
    rw [List.cons_append, Bracket.scan, ih hcs, List.length_cons]
    · rfl
    · exact hback
    · exact hclose
    · exact fun _ hname _ => hopen hname

theorem IsClassBody.bracketFree {body : List Char} (h : IsClassBody body) : BracketFree body := by
  obtain ⟨sign, members, rfl, hsign, -, hmembers, -⟩ := h
  refine List.forall_mem_append.mpr ⟨?_, hmembers⟩
  simp only [List.mem_cons, List.not_mem_nil, or_false] at hsign
  rcases hsign with rfl | rfl | rfl
  · exact List.forall_mem_nil _
  · exact List.forall_mem_singleton.mpr (by decide)
  · exact List.forall_mem_singleton.mpr (by decide)

/-- **A class of the grammar closes** with the bracket behind its body. -/
theorem closing?_of_isClassBody {body : List Char} (h : IsClassBody body) (rest : List Char) :
    Bracket.closing? (body ++ ']' :: rest) (Bracket.lookahead (body ++ ']' :: rest)) =
      some body.length := by
  obtain ⟨sign, members, rfl, hsign, hne, hmembers, hfirst⟩ := h
  obtain ⟨c, members, rfl⟩ := List.exists_cons_of_ne_nil hne
  have hlength : Bracket.negationLength (sign ++ c :: members ++ ']' :: rest) = sign.length := by
    simp only [List.mem_cons, List.not_mem_nil, or_false] at hsign
    rcases hsign with rfl | rfl | rfl
    · have hc := hfirst rfl c rfl
      simp only [List.mem_cons, List.not_mem_nil, or_false, not_or] at hc
      have hno : Bracket.isNegation c = false := by simp [Bracket.isNegation, hc]
      rw [List.nil_append, List.cons_append, Bracket.negationLength, hno]
      rfl
    · rfl
    · rfl
  have hclose : Bracket.closeFromFirst? (c :: members ++ ']' :: rest) =
      some (c :: members).length := by
    have hc : c ≠ ']' := by
      rintro rfl
      exact hmembers ']' List.mem_cons_self (by decide)
    rw [List.cons_append, Bracket.closeFromFirst?, if_neg hc, Bracket.closeAt_lookahead,
      ← List.cons_append, scan_bracketFree hmembers]
  rw [Bracket.closing?_eq, hlength, List.append_assoc, List.drop_left, hclose, Option.map_some,
    List.length_append, Nat.add_comm]

/-! ## 3. The trees of the grammar -/

/-- A tree that begins further on has its delimiters there. -/
theorem pairs_add (start n : Nat) (g : Glob) :
    g.pairs (start + n) = (g.pairs start).map (shift n) := by
  induction g generalizing start with
  | done => rfl
  | char c rest ih => rw [pairs, pairs, Nat.add_right_comm, ih]
  | escaped c rest ih => rw [pairs, pairs, Nat.add_right_comm, ih]
  | bracket body rest ih =>
    have hnext : start + n + body.length + 2 = start + body.length + 2 + n := by omega
    have hclose : start + n + body.length + 1 = start + body.length + 1 + n := by omega
    rw [pairs, pairs, hnext, ih, hclose]
    rfl
  | group k body rest ihb ihr =>
    have hnext : start + n + body.length + 2 = start + body.length + 2 + n := by omega
    have hclose : start + n + body.length + 1 = start + body.length + 1 + n := by omega
    have hbody : start + n + 1 = start + 1 + n := by omega
    rw [pairs, pairs, hnext, ihr, hbody, ihb, hclose, List.map_cons, List.map_append]
    rfl

/-- The tree of a text of the grammar, with its depth and its delimiters. -/
structure IsTree (g : Glob) (n : Nat) (cs : List Char) (ps : List (Nat × Nat)) : Prop where
  marks : ∀ rest, marksOf (cs ++ rest) = g.toMarks ++ marksOf rest
  balanced : g.Balanced
  depth : g.depth = n
  pairs : g.pairs 0 = ps

/-- A tree has the text whose marks it tells. -/
theorem IsTree.text {g : Glob} {n : Nat} {cs : List Char} {ps : List (Nat × Nat)}
    (h : IsTree g n cs ps) : g.text = cs := by
  have hmarks := h.marks []
  have hnone : marksOf [] = [] := rfl
  rw [hnone, List.append_nil, List.append_nil] at hmarks
  rw [← text_toMarks, ← hmarks, text_marksOf]

/-- The delimiters of a tree that begins at a place. -/
theorem IsTree.pairs_start {g : Glob} {n : Nat} {cs : List Char} {ps : List (Nat × Nat)}
    (h : IsTree g n cs ps) (start : Nat) : g.pairs start = ps.map (shift start) := by
  rw [← Nat.zero_add start, pairs_add, h.pairs, Nat.zero_add]

/-- **Every text of the grammar has a tree.** -/
theorem exists_isTree {n : Nat} {cs : List Char} {ps : List (Nat × Nat)} (h : Generated n cs ps) :
    ∃ g, IsTree g n cs ps := by
  induction h with
  | done => exact ⟨Glob.done, fun _ => rfl, trivial, rfl, rfl⟩
  | @char n c cs ps hc _ ih =>
    obtain ⟨g, hg⟩ := ih
    simp only [List.mem_cons, List.not_mem_nil, or_false, not_or] at hc
    refine ⟨Glob.char c g, fun rest => ?_, ⟨by simp [hc], hg.balanced⟩, hg.depth, ?_⟩
    · rw [List.cons_append, marksOf_cons hc.1 hc.2.2.2.2.2.1, hg.marks]
      rfl
    · rw [Glob.pairs, hg.pairs_start, Nat.zero_add]
  | @escaped n cs ps c _ ih =>
    obtain ⟨g, hg⟩ := ih
    refine ⟨Glob.escaped c g, fun rest => ?_, hg.balanced, hg.depth, ?_⟩
    · rw [List.cons_append, List.cons_append, marksOf_escaped, hg.marks]
      rfl
    · rw [Glob.pairs, hg.pairs_start, Nat.zero_add]
  | @bracket n body cs ps hbody _ ih =>
    obtain ⟨g, hg⟩ := ih
    have hplain := isPlain_of_bracketFree hbody.bracketFree
    refine ⟨Glob.bracket body g, fun rest => ?_, ⟨hplain, hg.balanced⟩, hg.depth, ?_⟩
    · rw [List.cons_append, List.append_assoc, List.cons_append,
        marksOf_class (closing?_of_isClassBody hbody _), hg.marks]
      rfl
    · rw [Glob.pairs, hg.pairs_start, Nat.zero_add]
  | @group n m inside cs ps qs k _ _ ihb ihr =>
    obtain ⟨body, hbody⟩ := ihb
    obtain ⟨rest, hrest⟩ := ihr
    have hlength : body.length = inside.length := by rw [← length_text, hbody.text]
    refine ⟨Glob.group k body rest, fun back => ?_, ⟨hbody.balanced, hrest.balanced⟩, ?_, ?_⟩
    · rw [List.cons_append, List.append_assoc, List.cons_append, marksOf_opener, hbody.marks,
        marksOf_closer, hrest.marks, toMarks, List.append_assoc, List.cons_append, List.cons_append]
    · rw [Glob.depth, hbody.depth, hrest.depth]
    · rw [Glob.pairs, hbody.pairs_start, hrest.pairs_start, hlength, Nat.zero_add]

/-! ## 4. Reading a text of the grammar -/

/-- **Reading pairs the delimiters of a text of the grammar** as the grammar does, all of them and
    nothing else, as long as no more groups are nested than may be open at a time. -/
theorem pairsOf_of_generated {n : Nat} {cs : List Char} {ps : List (Nat × Nat)}
    (h : Generated n cs ps) (hn : n ≤ maxNesting) : pairsOf cs = ps := by
  obtain ⟨g, hg⟩ := exists_isTree h
  have hmarks := hg.marks []
  rw [List.append_nil] at hmarks
  have hread : read cs = g := by
    rw [read, hmarks, ofMarks_append hg.balanced (by rw [hg.depth]; exact hn)]
    exact append_done g
  rw [pairsOf, hread, hg.pairs]

/-- An escaped brace, a class, and a brace in a parenthesis: `\{x[!b](a{c})`. -/
theorem pairsOf_of_generated_mixed :
    Generated 2 ['\\', '\x7b', 'x', '[', '!', 'b', ']', '(', 'a', '\x7b', 'c', '\x7d', ')']
        [(3, 6), (7, 12), (9, 11)] ∧
      2 ≤ maxNesting ∧
      pairsOf ['\\', '\x7b', 'x', '[', '!', 'b', ']', '(', 'a', '\x7b', 'c', '\x7d', ')'] =
        [(3, 6), (7, 12), (9, 11)] := by
  have hbody : IsClassBody ['!', 'b'] :=
    ⟨['!'], ['b'], rfl, by decide, by decide, List.forall_mem_singleton.mpr (by decide), nofun⟩
  have hbraces := Generated.group .braces (.char (c := 'c') (by decide) .done) .done
  have hparens := Generated.group .parens (.char (c := 'a') (by decide) hbraces) .done
  have hclass := Generated.char (c := 'x') (by decide) (.bracket hbody hparens)
  have hdepth : 2 ≤ maxNesting := by decide
  exact ⟨.escaped '\x7b' hclass, hdepth, pairsOf_of_generated (.escaped '\x7b' hclass) hdepth⟩

end Wildcard.Glob
