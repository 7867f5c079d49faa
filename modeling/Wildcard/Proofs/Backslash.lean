import Wildcard.Proofs.Glob.Alignment
import Wildcard.Proofs.Shortcut

/-!
# Backslashes of a candidate

A candidate with backslashes is tried as it stands and then once more with separators for them. To
a regex a backslash is an ordinary character, so in the first try a wildcard passes over one where
in the second it stops at the separator. Both tries agree on every candidate where nothing of a
pattern reads a backslash.

* `Regex.count_of_spans`: what no item matches is not read.
* `Glob.SparesBackslashes`: which patterns read no backslash.
* `CompiledGlob.accepts_unify`: when a candidate and its unified form are accepted alike.
-/

namespace Wildcard

open Regex (Single Translation)

/-! ## 1. What no item matches -/

namespace Regex

variable {x : Char}

/-- A relation under a quantifier leaves alone how often a character is left, if the relation
    does. -/
theorem count_of_quantifier {R : List Char → List Char → Prop}
    (h : ∀ u v, R u v → u.count x = v.count x) (q : Quantifier) {u v : List Char}
    (hs : q.Spans R u v) : u.count x = v.count x := by
  have hrepeated : ∀ {u v}, Relation.ReflTransGen R u v → u.count x = v.count x := by
    intro u v hs
    induction hs with
    | refl => rfl
    | tail _ hstep ih => exact ih.trans (h _ _ hstep)
  cases q with
  | once => exact h u v hs
  | optional =>
    rcases hs with rfl | hs
    · rfl
    · exact h u v hs
  | plus =>
    obtain ⟨w, hw, hs⟩ := hs
    exact (h u w hw).trans (hrepeated hs)
  | star => exact hrepeated hs
  | lazyStar => exact hrepeated hs

theorem count_of_reads {p : Char → Bool} (hp : p x = false) {u v : List Char} (h : Reads p u v) :
    u.count x = v.count x := by
  obtain ⟨c, hc, rfl⟩ := h
  refine List.count_cons_of_ne fun hx => ?_
  rw [hx, hp] at hc
  cases hc

theorem count_of_spansBy {t : Subject} {r : Regex}
    (h : r.Each fun s => s.accepts t.rule t.dotAll x = false) (side : Bool) {u v : List Char}
    (hs : r.SpansBy t side u v) : u.count x = v.count x := by
  induction r generalizing side u v with
  | done => rw [hs.2]
  | single s q rest ih =>
    cases side with
    | true => exact ih h.2 true hs
    | false =>
      obtain ⟨w, hw, hrest⟩ := hs
      exact (count_of_quantifier (fun _ _ => count_of_reads h.1) q hw).trans (ih h.2 false hrest)
  | anchor a rest ih =>
    cases side with
    | true => exact ih h true hs
    | false => exact ih h false hs.2
  | group k body q rest ihb ihr =>
    cases side with
    | true => exact ihr h.2 true hs
    | false =>
      cases k with
      | plain =>
        obtain ⟨w, hw, hrest⟩ := hs
        have hbody : ∀ u v, (∃ side, body.SpansBy t side u v) → u.count x = v.count x :=
          fun _ _ ⟨side, hs⟩ => ihb h.1 side hs
        exact (count_of_quantifier hbody q hw).trans (ihr h.2 false hrest)
      | ahead => exact ihr h.2 false hs.2
      | notAhead => exact ihr h.2 false hs.2
  | bar rest ih =>
    cases side with
    | true =>
      obtain ⟨side, hs⟩ := hs
      exact ih h side hs
    | false => exact congrArg (List.count x) hs

/-- **A character that no item matches is not read.** -/
theorem count_of_spans {t : Subject} {r : Regex}
    (h : r.Each fun s => s.accepts t.rule t.dotAll x = false) {u v : List Char}
    (hs : r.Spans t u v) : u.count x = v.count x := by
  obtain ⟨side, hs⟩ := hs
  exact count_of_spansBy h side hs

theorem caseless_backslash : Caseless '\\' :=
  .of_tables (by decide +kernel) rfl rfl (by decide) (by decide)

/-- The item matches no backslash. -/
def Single.SparesBackslash (s : Single) : Prop := s.accepts .exact false '\\' = false

instance (s : Single) : Decidable s.SparesBackslash :=
  inferInstanceAs (Decidable (s.accepts .exact false '\\' = false))

theorem sparesBackslash_marked (s : Single) (h : s.SparesBackslash) :
    s.marked.SparesBackslash := by
  rw [Single.SparesBackslash, Single.accepts_marked]
  exact h

theorem Single.SparesBackslash.accepts {s : Single} (h : s.SparesBackslash) (rule : CaseRule)
    (dotAll : Bool) : s.accepts rule dotAll '\\' = false :=
  (accepts_caseless caseless_backslash (by decide) rule dotAll s).trans h

end Regex

/-! ## 2. Patterns that read no backslash -/

namespace Glob

instance (c : Char) (rest : Glob) : Decidable (IsWild c rest) :=
  inferInstanceAs (Decidable ((c = '*' ∨ c = '?') ∧ ¬ rest.OpensGroup ∨ c = '!' ∧ rest.OpensGroup))

/-- Nothing in the pattern but a backslash of its own reads one: there are no wildcards and no
    negated groups, no class matches a backslash, and no range of letters runs over it. -/
def SparesBackslashes : Glob → Prop
  | done => True
  | char c rest => ¬ IsWild c rest ∧ rest.SparesBackslashes
  | escaped _ rest => rest.SparesBackslashes
  | bracket body rest => (Bracket.item body).SparesBackslash ∧ rest.SparesBackslashes
  | group .parens body rest => body.SparesBackslashes ∧ rest.SparesBackslashes
  | group .braces body rest =>
    spellsBackslash body.text = false ∧ body.SparesBackslashes ∧ rest.SparesBackslashes

instance decidableSparesBackslashes : (g : Glob) → Decidable g.SparesBackslashes
  | done => isTrue trivial
  | char c rest =>
    have := decidableSparesBackslashes rest
    inferInstanceAs (Decidable (¬ IsWild c rest ∧ rest.SparesBackslashes))
  | escaped _ rest => decidableSparesBackslashes rest
  | bracket body rest =>
    have := decidableSparesBackslashes rest
    inferInstanceAs (Decidable ((Bracket.item body).SparesBackslash ∧ rest.SparesBackslashes))
  | group .parens body rest =>
    have := decidableSparesBackslashes body
    have := decidableSparesBackslashes rest
    inferInstanceAs (Decidable (body.SparesBackslashes ∧ rest.SparesBackslashes))
  | group .braces body rest =>
    have := decidableSparesBackslashes body
    have := decidableSparesBackslashes rest
    inferInstanceAs (Decidable (spellsBackslash body.text = false ∧ body.SparesBackslashes ∧
      rest.SparesBackslashes))

theorem admits_sparesBackslash : Admits Single.SparesBackslash where
  char c _ hc := by
    simpa [Single.SparesBackslash, Single.accepts, Regex.acceptsChar] using Ne.symm hc

/-- Without a backslash of its own such a pattern is written with items that match none. -/
theorem writtenIn_sparesBackslash {g : Glob} (h : g.SparesBackslashes) (hback : '\\' ∉ g.text)
    (d : Char) : g.WrittenIn Single.SparesBackslash d := by
  induction g generalizing d with
  | done => trivial
  | char c rest ih =>
    rw [text, List.mem_cons, not_or] at hback
    exact ⟨fun _ => .inr rfl, fun hc => absurd hc.symm hback.1, fun hwild => absurd hwild h.1,
      ih h.2 hback.2 d⟩
  | escaped c rest ih => exact absurd List.mem_cons_self hback
  | bracket body rest ih =>
    simp only [text, List.mem_cons, List.mem_append, not_or] at hback
    exact ⟨h.1, ih h.2 hback.2.2 d⟩
  | group k body rest ihb ihr =>
    simp only [text, List.mem_cons, List.mem_append, not_or] at hback
    cases k with
    | parens => exact ⟨ihb h.1 hback.1.2 '|', ihr h.2 hback.2.2 d⟩
    | braces =>
      obtain ⟨hrange, hbody, hrest⟩ := h
      refine ⟨fun hspells => ?_, ihb hbody hback.1.2 ',', ihr hrest hback.2.2 d⟩
      rw [hrange] at hspells
      cases hspells

end Glob

/-! ## 3. Compiled patterns -/

namespace CompiledGlob

variable {pattern : List Char} {options : Option MatchOptions} {negated : Option Bool}
  {serial : Nat} {g : CompiledGlob}

/-- A pattern that reads no backslash and has none of its own is found in no candidate with one. -/
theorem not_mem_of_sparesBackslashes (hback : '\\' ∉ pattern)
    (h : ofPattern pattern options negated serial = .ok g)
    (hspares : (Glob.read (Segmentation.body pattern)).SparesBackslashes) {c : List Char}
    (hc : g.isFoundIn c = true) : '\\' ∉ c := by
  obtain ⟨-, hfound⟩ := isFoundIn_ofPattern h
  have hbody : '\\' ∉ (Glob.read (Segmentation.body pattern)).text := by
    rw [Glob.text_read]
    exact fun hmem => hback (mem_of_mem_body hmem)
  have hsep : (Single.literal (.escaped '/')).SparesBackslash := rfl
  have hmiddle := Segmentation.translation_middle Glob.admits_sparesBackslash hsep
    (MatchOptions.matchesDot options) (Glob.writtenIn_sparesBackslash hspares hbody '/')
  have hitems := (hmiddle.compared Regex.sparesBackslash_marked g.regex.flags).each fun _ => hsep
  have hcount := Regex.count_of_spans (hitems.imp fun s hs => hs.accepts _ _) ((hfound c).mp hc)
  exact List.count_eq_zero.mp hcount

/-- Without globstars each segment of a pattern takes one of a candidate. -/
theorem length_of_aligns {flags : Regex.Flags} {dot : Bool} {segments : List Segment}
    {xs : List (List Char)} (hstars : ∀ s ∈ segments, s.kind ≠ .globstar)
    (h : Aligns flags dot segments xs) : xs.length = segments.length := by
  induction h with
  | done => rfl
  | segment _ _ _ ih => exact congrArg (· + 1) (ih (List.forall_mem_cons.mp hstars).2)
  | skip hkind _ _ => exact absurd hkind (hstars _ List.mem_cons_self)
  | swallow hkind _ _ _ => exact absurd hkind (hstars _ List.mem_cons_self)
  | last hkind _ => exact absurd hkind (hstars _ List.mem_cons_self)

/-- A pattern that is matched segment by segment, without globstars and without `./` in front, is
    found in candidates of one number of segments only. -/
theorem count_separators (hdir : currentDirectory? pattern = none)
    (hsep : (Glob.read pattern).Separated)
    (hstars : ∀ p ∈ (Glob.read pattern).pieces '/', ¬ p.IsGlobstar)
    (h : ofPattern pattern options negated serial = .ok g) {c : List Char}
    (hc : g.isFoundIn c = true) : c.count '/' + 1 = ((Glob.read pattern).pieces '/').length := by
  have hbody : Segmentation.body pattern = pattern := by
    rw [Segmentation.body, hdir, Option.getD_none]
  obtain ⟨flags, -, hflags, -⟩ := compile_ofPattern h
  rw [isFoundIn_iff_exists_aligns hflags (hbody.symm ▸ hsep) h] at hc
  obtain ⟨rest, hleaves, haligns⟩ := hc
  have hrest : c = rest := by
    refine hleaves.resolve_right fun hleads => ?_
    rw [hdir] at hleads
    cases hleads.1
  have hkinds : ∀ s ∈ Segmentation.plainSegments (MatchOptions.matchesDot options) pattern,
      s.kind ≠ .globstar := by
    rw [Segmentation.plainSegments, hbody]
    exact List.forall_mem_map.mpr fun p hp => mt (Glob.kind_segment _ p).mp (hstars p hp)
  have hlength := length_of_aligns hkinds haligns
  rw [← hrest, Path.length_splitOn, Segmentation.plainSegments, hbody, List.length_map] at hlength
  exact hlength

/-- **A candidate is accepted** if it is found as it stands or its unified form is accepted. The two
    forms are accepted alike where nothing of a pattern reads a backslash. Of a pattern without
    globstars and `./` in front whose separators divide its segments, they are accepted alike only
    if the candidate is not found with a backslash in it. -/
theorem accepts_unify (hback : '\\' ∉ pattern)
    (h : ofPattern pattern options negated serial = .ok g) :
    (∀ c, g.accepts c = true ↔ g.isFoundIn c = true ∨ g.accepts (Path.unify c) = true) ∧
      ((Glob.read (Segmentation.body pattern)).SparesBackslashes →
        ∀ c, g.accepts c = g.accepts (Path.unify c)) ∧
      (currentDirectory? pattern = none → (Glob.read pattern).Separated →
        (∀ p ∈ (Glob.read pattern).pieces '/', ¬ p.IsGlobstar) →
          ∀ c, g.accepts c = g.accepts (Path.unify c) ↔ (g.isFoundIn c = true → '\\' ∉ c)) := by
  have hunified : ∀ c, g.accepts (Path.unify c) = g.isFoundIn (Path.unify c) := by
    intro c
    rw [Bool.eq_iff_iff, accepts_iff, Path.unify_of_not_mem (Path.backslash_not_mem_unify c),
      or_self]
  have hretried : ∀ c, g.accepts c = true ↔
      g.isFoundIn c = true ∨ g.accepts (Path.unify c) = true := by
    intro c
    rw [accepts_iff, hunified]
  have halike : ∀ c, (g.isFoundIn c = true → '\\' ∉ c) →
      g.accepts c = g.accepts (Path.unify c) := by
    intro c hno
    rw [Bool.eq_iff_iff, hretried]
    refine or_iff_right_of_imp fun hfound => ?_
    rw [hunified, Path.unify_of_not_mem (hno hfound)]
    exact hfound
  refine ⟨hretried, fun hspares c => halike c (not_mem_of_sparesBackslashes hback h hspares), ?_⟩
  intro hdir hsep hstars c
  refine ⟨fun hsame hfound hmem => ?_, halike c⟩
  have haccepted : g.accepts (Path.unify c) = true := by
    rw [← hsame, hretried]
    exact .inl hfound
  rw [hunified] at haccepted
  -- the unified form has a separator more, but the pattern as many segments as before
  have hmore := Path.count_lt_count_unify hmem
  have hcount := count_separators hdir hsep hstars h hfound
  have hcount' := count_separators hdir hsep hstars h haccepted
  omega

/-- Groups, classes and ranges around literal text, which read no backslash, and wildcards and a
    negated group, which do. -/
theorem accepts_unify_grouped :
    (∃ g, ofPattern "./src/+(a|[b-d]).\x7bjs,c\x7b1..3\x7d\x7d".toList none none 0 = .ok g ∧
      ∀ c, g.accepts c = g.accepts (Path.unify c)) ∧
    ∃ g, ofPattern "src/!(a)?/*.c".toList (some { nocase := true }) none 0 = .ok g ∧
      ∀ c, g.accepts c = g.accepts (Path.unify c) ↔ (g.isFoundIn c = true → '\\' ∉ c) := by
  have h : ofPattern "./src/+(a|[b-d]).\x7bjs,c\x7b1..3\x7d\x7d".toList none none 0 = .ok _ := rfl
  have h' : ofPattern "src/!(a)?/*.c".toList (some { nocase := true }) none 0 = .ok _ := rfl
  exact ⟨⟨_, h, (accepts_unify (by decide) h).2.1 (by decide)⟩,
    _, h', (accepts_unify (by decide) h').2.2 (by decide) (by decide) (by decide)⟩

/-- A star reads a backslash where it stops at a separator. -/
theorem accepts_ne_accepts_unify :
    '\\' ∉ "*".toList ∧ ∃ g, ofPattern "*".toList none none 0 = .ok g ∧
      g.accepts "a\\b".toList = true ∧ g.accepts (Path.unify "a\\b".toList) = false := by
  have h : ofPattern "*".toList none none 0 = .ok _ := rfl
  exact ⟨by decide, _, h, by decide +kernel, by decide +kernel⟩

end CompiledGlob

end Wildcard
