import Wildcard.Proofs.Glob.Literal
import Wildcard.Proofs.Path
import Wildcard.Proofs.Predicate

/-!
# Shortcuts of a match

A matcher that holds nothing registered by hand decides about blank patterns and patterns without
wildcards by comparing texts. The shortcut for blank patterns is exact, and so is leaving the other
one aside where case is ignored. A pattern without wildcards is compared with its backslashes, and
behind a leading `./` with the candidate as it stands, while the compiled pattern reads a backslash
as an escape and is tried on the candidate with slashes as well. So the two ways agree on all
candidates exactly if the pattern holds no backslash, and no separator behind a leading `./`
(`isMatch_iff_accepts`).
-/

namespace Wildcard

/-! ## 1. Blank texts -/

namespace Text

/-- The code points of all blank characters. -/
def blanks : List Nat :=
  List.range' 0x09 5 ++ List.range' 0x1C 5 ++ List.range' 0x2000 11 ++
    [0x85, 0xA0, 0x1680, 0x2028, 0x2029, 0x202F, 0x205F, 0x3000]

theorem mem_blanks {c : Char} (h : isBlank c = true) : c.toNat ∈ blanks := by
  simp only [isBlank, Bool.or_eq_true, decide_eq_true_eq, beq_iff_eq] at h
  simp only [blanks, List.mem_append, List.mem_range'_1, List.mem_cons, List.not_mem_nil, or_false]
  omega

/-- Blank characters have no case. -/
theorem caseless_of_isBlank {c : Char} (h : isBlank c = true) : Regex.Caseless c := by
  have htables : ∀ n ∈ blanks,
      (upper (Char.ofNat n) = Char.ofNat n ∧ Regex.IsApart (Char.ofNat n).toNat) ∧
      (Char.ofNat n).isAlpha = false ∧ (Char.ofNat n).toUpper = Char.ofNat n ∧
        Char.ofNat n ≤ Regex.lastBasic ∧ (Char.ofNat n).toNat ≠ 0 := by
    decide +kernel
  have hc := htables c.toNat (mem_blanks h)
  rw [Char.ofNat_toNat] at hc
  exact .of_tables hc.1 hc.2.1 hc.2.2.1 hc.2.2.2.1 hc.2.2.2.2

end Text

/-! ## 2. Backslashes in patterns -/

namespace Glob

theorem unescaped_of_not_mem {cs : List Char} (h : '\\' ∉ cs) : unescaped cs = cs := by
  fun_induction unescaped cs with
  | case1 c rest ih => exact absurd List.mem_cons_self h
  | case2 c rest hno ih =>
    obtain ⟨-, hrest⟩ := not_or.mp (mt List.mem_cons.mpr h)
    rw [ih hrest]
  | case3 => rfl

/-- A text without backslashes once they are taken off is shorter than with slashes for them. -/
theorem length_unescaped_lt {cs : List Char} (h : '\\' ∉ unescaped cs) :
    (unescaped cs).length ≤ (Path.unify cs).length ∧
      ('\\' ∈ cs → (unescaped cs).length < (Path.unify cs).length) := by
  fun_induction unescaped cs with
  | case1 c rest ih =>
    obtain ⟨hc, hrest⟩ := not_or.mp (mt List.mem_cons.mpr h)
    have hle := (ih hrest).1
    have hunify : Path.unify ('\\' :: c :: rest) = '/' :: c :: Path.unify rest := by
      rw [Path.unify, Path.unifyFrom, if_pos rfl, Path.unifyFrom, if_neg (Ne.symm hc)]
      rfl
    rw [hunify]
    simp only [List.length_cons]
    omega
  | case2 c rest hno ih =>
    obtain ⟨hc, hrest⟩ := not_or.mp (mt List.mem_cons.mpr h)
    obtain ⟨hle, hlt⟩ := ih hrest
    rw [Path.unify_cons (Ne.symm hc), List.length_cons, List.length_cons]
    refine ⟨by omega, fun hmem => ?_⟩
    have := hlt ((List.mem_cons.mp hmem).resolve_left hc)
    omega
  | case3 => exact ⟨Nat.le_refl 0, fun hmem => absurd hmem List.not_mem_nil⟩

end Glob

/-! ## 3. What compiled patterns accept -/

open Segmentation (body Leaves)

theorem isLiteralPattern_iff {pattern : List Char} :
    isLiteralPattern pattern = true ↔
      ∀ c ∈ pattern, c ∉ ['!', '*', '+', '?', '(', ')', '{', '}', '[', ']'] := by
  simp [isLiteralPattern]

namespace CompiledGlob

/-- A candidate is matched as it stands or with slashes for its backslashes. -/
theorem accepts_iff (g : CompiledGlob) (c : List Char) :
    g.accepts c = true ↔ g.isFoundIn c = true ∨ g.isFoundIn (Path.unify c) = true := by
  unfold accepts
  rw [Bool.or_eq_true, Bool.and_eq_true, List.contains_iff_mem]
  refine or_congr_right' fun hc => and_iff_right_of_imp fun hunified => ?_
  -- without backslashes the candidate would have been tried already
  refine Classical.byContradiction fun hno => ?_
  rw [Path.unify_of_not_mem hno] at hunified
  exact hc hunified

/-- What is found in all candidates in which another pattern is found is accepted with it. -/
theorem accepts_mono {g g' : CompiledGlob}
    (h : ∀ c, g.isFoundIn c = true → g'.isFoundIn c = true) (c : List Char)
    (hc : g.accepts c = true) : g'.accepts c = true := by
  rw [accepts_iff] at hc ⊢
  exact hc.imp (h c) (h (Path.unify c))

variable {pattern : List Char} {options : Option MatchOptions} {negated : Option Bool}
  {serial : Nat} {g : CompiledGlob}

/-- **A pattern without wildcards** accepts its text without the backslashes that escape. -/
theorem accepts_literal (h : CompiledGlob.ofPattern pattern options negated serial = .ok g)
    (hliteral : isLiteralPattern pattern = true)
    (halone : Regex.MatchedAlone g.regex.flags.caseRule (Glob.unescaped (body pattern)))
    (c : List Char) :
    g.accepts c = true ↔
      ∃ d, (d = c ∨ d = Path.unify c) ∧ Leaves pattern d (Glob.unescaped (body pattern)) := by
  have hchars := isLiteralPattern_iff.mp hliteral
  have hplain : (Glob.read (body pattern)).plain = Glob.unescaped (body pattern) := by
    refine Glob.plain_read fun c hc hmem => hchars c (mem_of_mem_body hc) ?_
    simp only [List.mem_cons, List.not_mem_nil, or_false] at hmem ⊢
    rcases hmem with rfl | rfl | rfl | rfl | rfl <;> simp
  have hmagic : (Glob.read (body pattern)).isMagic = false := by
    refine Glob.isMagic_of_text fun c hc hmem => ?_
    rw [Glob.text_read] at hc
    refine hchars c (mem_of_mem_body hc) ?_
    simp only [List.mem_cons, List.not_mem_nil, or_false] at hmem ⊢
    rcases hmem with rfl | rfl | rfl | rfl | rfl <;> simp
  rw [← hplain] at halone ⊢
  have hfound (d : List Char) := isFoundIn_of_not_isMagic h hmagic halone d
  rw [accepts_iff, hfound, hfound]
  constructor
  · intro hd
    rcases hd with hd | hd
    · exact ⟨c, .inl rfl, hd⟩
    · exact ⟨Path.unify c, .inr rfl, hd⟩
  · intro ⟨d, hdc, hd⟩
    rcases hdc with rfl | rfl
    · exact .inl hd
    · exact .inr hd

/-- **A blank pattern** accepts itself alone, under all flags. -/
theorem accepts_blank (h : CompiledGlob.ofPattern pattern options negated serial = .ok g)
    (hblank : Text.isBlankText pattern = true) (c : List Char) :
    g.accepts c = (c == pattern) := by
  have hchars : ∀ x ∈ pattern, Text.isBlank x = true := List.all_eq_true.mp hblank
  have hnot (x : Char) (hx : Text.isBlank x = false) : x ∉ pattern := by
    intro hmem
    rw [hchars x hmem] at hx
    cases hx
  have hliteral : isLiteralPattern pattern = true := by
    refine isLiteralPattern_iff.mpr fun x hx hmem => ?_
    have hspecial : ['!', '*', '+', '?', '(', ')', '{', '}', '[', ']'].all
        (fun y => !Text.isBlank y) = true := by decide
    have hx' := List.all_eq_true.mp hspecial x hmem
    rw [hchars x hx] at hx'
    cases hx'
  have hno : '.' ∉ pattern := hnot '.' (by decide)
  have hdir := currentDirectory?_eq_none (.inl hno)
  have hbody := Segmentation.body_eq_self (.inl hno)
  have hplain : Glob.unescaped pattern = pattern :=
    Glob.unescaped_of_not_mem (hnot '\\' (by decide))
  have halone : Regex.MatchedAlone g.regex.flags.caseRule (Glob.unescaped (body pattern)) := by
    intro x hx d
    rw [hbody, hplain] at hx
    exact Regex.acceptsChar_eq_beq (Text.caseless_of_isBlank (hchars x hx)) _ d
  have hleaves (d : List Char) : Leaves pattern d pattern ↔ d = pattern := by
    simp [Leaves, hdir]
  rw [Bool.eq_iff_iff, accepts_literal h hliteral halone c, hbody, hplain, beq_iff_eq]
  simp only [hleaves]
  constructor
  · intro ⟨d, hdc, hd⟩
    rcases hdc with rfl | rfl
    · exact hd
    · by_cases hslash : '\\' ∈ c
      · have hmem := Path.separator_mem_unify hslash
        rw [hd] at hmem
        exact absurd hmem (hnot '/' (by decide))
      · rwa [Path.unify_of_not_mem hslash] at hd
  · intro hc
    exact ⟨c, .inl rfl, hc⟩

end CompiledGlob

/-! ## 4. When the comparison is exact -/

/-- A candidate is accepted that reads, as it stands or with slashes for its backslashes, like the
    pattern without the backslashes that escape. -/
def AcceptsPlainly (pattern c : List Char) : Prop :=
  ∃ d, (d = c ∨ d = Path.unify c) ∧ Leaves pattern d (Glob.unescaped (body pattern))

theorem matchesLiteral_iff {c pattern : List Char} :
    Matcher.matchesLiteral c pattern = true ↔
      c = pattern ∨ Path.unify c = Path.unify pattern ∨ currentDirectory? pattern = some c := by
  unfold Matcher.matchesLiteral
  rw [Bool.or_eq_true, Bool.or_eq_true, beq_iff_eq, beq_iff_eq, or_assoc]
  refine or_congr_right (or_congr_right ?_)
  cases currentDirectory? pattern with
  | none => simp
  | some rest =>
    rw [beq_iff_eq, Option.some.injEq]
    exact eq_comm

/-- Without backslashes, and without separators behind a leading `./`, comparing is exact. -/
theorem matchesLiteral_exact {pattern : List Char} (hslash : '\\' ∉ pattern)
    (hdir : ∀ rest, currentDirectory? pattern = some rest → '/' ∉ rest) (c : List Char) :
    Matcher.matchesLiteral c pattern = true ↔ AcceptsPlainly pattern c := by
  have hplain : Glob.unescaped (body pattern) = body pattern :=
    Glob.unescaped_of_not_mem fun h => hslash (mem_of_mem_body h)
  rw [matchesLiteral_iff, AcceptsPlainly, Path.unify_of_not_mem hslash, hplain]
  cases hd : currentDirectory? pattern with
  | none =>
    simp only [Leaves, body, hd, Option.getD_none, reduceCtorEq, or_false, Option.isSome_none,
      Bool.false_eq_true, false_and]
    constructor
    · intro h
      rcases h with h | h
      · exact ⟨c, .inl rfl, h⟩
      · exact ⟨Path.unify c, .inr rfl, h⟩
    · rintro ⟨d, hdc, h⟩
      rcases hdc with rfl | rfl
      · exact .inl h
      · exact .inr h
  | some rest =>
    have hpattern := currentDirectory?_eq_some.mp hd
    have hrest := hdir rest hd
    have hback : Path.unify c = rest → c = rest := by
      intro h
      by_cases hmem : '\\' ∈ c
      · have hsep := Path.separator_mem_unify hmem
        rw [h] at hsep
        exact absurd hsep hrest
      · rwa [Path.unify_of_not_mem hmem] at h
    simp only [Leaves, body, hd, Option.getD_some, Option.isSome_some, true_and, ← hpattern,
      Option.some.injEq]
    constructor
    · intro h
      rcases h with h | h | h
      · exact ⟨c, .inl rfl, .inr h⟩
      · exact ⟨Path.unify c, .inr rfl, .inr h⟩
      · exact ⟨c, .inl rfl, .inl h.symm⟩
    · rintro ⟨d, hdc, h⟩
      rcases hdc with rfl | rfl
      · rcases h with h | h
        · exact .inr (.inr h.symm)
        · exact .inl h
      · rcases h with h | h
        · exact .inr (.inr (hback h).symm)
        · exact .inr (.inl h)

/-- A pattern with a backslash is compared wrongly with some candidate. -/
theorem exists_inexact_of_backslash {pattern : List Char} (hmem : '\\' ∈ pattern) :
    ∃ c, ¬ (Matcher.matchesLiteral c pattern = true ↔ AcceptsPlainly pattern c) := by
  have hnot : '\\' ∉ Path.unify pattern := Path.backslash_not_mem_unify pattern
  have hagain : Path.unify (Path.unify pattern) = Path.unify pattern := Path.unify_of_not_mem hnot
  refine ⟨Path.unify pattern, fun h => ?_⟩
  obtain ⟨d, hd, hleaves⟩ := h.mp (matchesLiteral_iff.mpr (.inr (.inl hagain)))
  have hd : d = Path.unify pattern := by
    rcases hd with hd | hd
    · exact hd
    · exact hd.trans hagain
  subst hd
  -- what the pattern reads like is shorter than the pattern with slashes for its backslashes
  unfold Leaves body at hleaves
  cases hdir : currentDirectory? pattern with
  | none =>
    rw [hdir] at hleaves
    rcases hleaves with heq | ⟨hsome, _⟩
    · rw [Option.getD_none] at heq
      rw [heq] at hnot
      have hlt := (Glob.length_unescaped_lt hnot).2 hmem
      rw [heq] at hlt
      omega
    · cases hsome
  | some rest =>
    rw [hdir, Option.getD_some] at hleaves
    have hpattern := currentDirectory?_eq_some.mp hdir
    have hrest : '\\' ∈ rest := by
      rw [hpattern] at hmem
      simpa using hmem
    have hunify : Path.unify pattern = '.' :: '/' :: Path.unify rest := by
      rw [hpattern, Path.unify_cons (by decide), Path.unify_cons (by decide)]
    have hunescaped : '\\' ∉ Glob.unescaped rest := by
      rcases hleaves with heq | ⟨_, heq⟩
      · rwa [heq] at hnot
      · rw [heq] at hnot
        exact fun h => hnot (List.mem_cons_of_mem _ (List.mem_cons_of_mem _ h))
    have hlt := (Glob.length_unescaped_lt hunescaped).2 hrest
    rw [hunify] at hleaves
    rcases hleaves with heq | ⟨_, heq⟩
    · have hlen := congrArg List.length heq
      simp only [List.length_cons] at hlen
      omega
    · have hlen := congrArg List.length heq
      simp only [List.length_cons] at hlen
      omega

/-- A pattern with a separator behind a leading `./` is compared wrongly with some candidate. -/
theorem exists_inexact_of_separator {pattern rest : List Char} (hslash : '\\' ∉ pattern)
    (hdir : currentDirectory? pattern = some rest) (hmem : '/' ∈ rest) :
    ∃ c, ¬ (Matcher.matchesLiteral c pattern = true ↔ AcceptsPlainly pattern c) := by
  have hpattern := currentDirectory?_eq_some.mp hdir
  have hnot : '\\' ∉ rest := by
    intro h
    rw [hpattern] at hslash
    exact hslash (List.mem_cons_of_mem _ (List.mem_cons_of_mem _ h))
  obtain ⟨a, b, hab⟩ := List.append_of_mem hmem
  have ha : '\\' ∉ a := fun h => hnot (by rw [hab]; exact List.mem_append_left _ h)
  have hb : '\\' ∉ b := fun h =>
    hnot (by rw [hab]; exact List.mem_append_right _ (List.mem_cons_of_mem _ h))
  -- one separator of the pattern is a backslash in the candidate
  have hunify : Path.unify (a ++ '\\' :: b) = rest := by
    rw [Path.unify_append ha, Path.unify_backslash hb, hab]
  have hback : '\\' ∈ a ++ '\\' :: b := by simp
  refine ⟨a ++ '\\' :: b, fun h => ?_⟩
  have hbody : body pattern = rest := by rw [body, hdir, Option.getD_some]
  have haccepts : AcceptsPlainly pattern (a ++ '\\' :: b) := by
    refine ⟨rest, .inr hunify.symm, .inl ?_⟩
    rw [hbody, Glob.unescaped_of_not_mem hnot]
  rcases matchesLiteral_iff.mp (h.mpr haccepts) with heq | heq | heq
  · rw [heq] at hback
    exact hslash hback
  · rw [hunify, Path.unify_of_not_mem hslash, hpattern] at heq
    have hlen := congrArg List.length heq
    simp only [List.length_cons] at hlen
    omega
  · rw [hdir] at heq
    rw [← Option.some.inj heq] at hback
    exact hnot hback

/-! ## 5. Both ways of deciding -/

namespace Matcher

/-- A pattern is decided about by comparing texts that is not blank, holds no wildcard, and whose
    case counts. -/
def Compares (pattern : List Char) (flags : Regex.Flags) : Prop :=
  Text.isBlankText pattern = false ∧ isLiteralPattern pattern = true ∧ flags.ignoreCase = false

variable {m : Matcher} {pattern : List Char} {options : Option MatchOptions}
  {negated : Option Bool} {g : CompiledGlob}

/-- **Without comparing** a match is what the compiled pattern accepts. -/
theorem isMatch_of_not_compares (hm : Faithful false m)
    (hg : (m.makeRegex pattern options negated).2 = .ok g)
    (h : ¬ Compares pattern g.regex.flags) (c : List Char) :
    (m.isMatch c pattern options negated).2 = .ok (g.accepts c) := by
  obtain ⟨negated', serial, hcompile⟩ := hm.ofPattern hg
  obtain ⟨hflags, -⟩ := CompiledGlob.isFoundIn_ofPattern hcompile
  rw [hm.answer_isMatch hflags, regexFor_of_makeRegex hg]
  cases hblank : Text.isBlankText pattern with
  | true => rw [if_pos rfl, CompiledGlob.accepts_blank hcompile hblank]
  | false =>
    have hcompiles : ¬ (isLiteralPattern pattern && !g.regex.flags.ignoreCase) = true := by
      intro hboth
      obtain ⟨hliteral, hcase⟩ := Bool.and_eq_true_iff.mp hboth
      exact h ⟨hblank, hliteral, Bool.not_eq_true' _ ▸ hcase⟩
    rw [if_neg Bool.false_ne_true, if_neg hcompiles]
    rfl

/-- **By comparing** a match is found without the compiled pattern. -/
theorem isMatch_of_compares (hm : Faithful false m)
    (hg : (m.makeRegex pattern options negated).2 = .ok g)
    (h : Compares pattern g.regex.flags) (c : List Char) :
    (m.isMatch c pattern options negated).2 = .ok (matchesLiteral c pattern) := by
  obtain ⟨hblank, hliteral, hcase⟩ := h
  obtain ⟨negated', serial, hcompile⟩ := hm.ofPattern hg
  obtain ⟨hflags, -⟩ := CompiledGlob.isFoundIn_ofPattern hcompile
  rw [hm.answer_isMatch hflags, hblank, hliteral, hcase]
  rfl

/-- What a pattern accepts that is decided about by comparing. -/
theorem accepts_of_compares (hm : Faithful false m)
    (hg : (m.makeRegex pattern options negated).2 = .ok g)
    (h : Compares pattern g.regex.flags) (c : List Char) :
    g.accepts c = true ↔ AcceptsPlainly pattern c := by
  obtain ⟨-, hliteral, hcase⟩ := h
  obtain ⟨negated', serial, hcompile⟩ := hm.ofPattern hg
  have hrule : g.regex.flags.caseRule = .exact := by
    rw [Regex.Flags.caseRule, hcase]
    rfl
  refine CompiledGlob.accepts_literal hcompile hliteral ?_ c
  intro x _ d
  rw [hrule]
  rfl

/-- **The shortcut and the compiled pattern**, after any run that leaves nothing registered by
    hand: where they agree on a candidate, and for which patterns they agree on all. -/
theorem isMatch_iff_accepts {actions : List Action}
    (hheld : holdsRegistered {} false actions = false)
    (hg : ((performAll {} actions).makeRegex pattern options negated).2 = .ok g) :
    (∀ c, ((performAll {} actions).isMatch c pattern options negated).2 = .ok (g.accepts c) ↔
      (Compares pattern g.regex.flags →
        (c = pattern ∨ Path.unify c = Path.unify pattern ∨ currentDirectory? pattern = some c ↔
          AcceptsPlainly pattern c))) ∧
    ((∀ c, ((performAll {} actions).isMatch c pattern options negated).2 = .ok (g.accepts c)) ↔
      (Compares pattern g.regex.flags →
        '\\' ∉ pattern ∧ ∀ rest, currentDirectory? pattern = some rest → '/' ∉ rest)) := by
  have hm : Faithful false (performAll {} actions) := hheld ▸ faithful_empty.performAll actions
  have hpoint (c : List Char) :
      ((performAll {} actions).isMatch c pattern options negated).2 = .ok (g.accepts c) ↔
        (Compares pattern g.regex.flags →
          (matchesLiteral c pattern = true ↔ AcceptsPlainly pattern c)) := by
    by_cases h : Compares pattern g.regex.flags
    · rw [isMatch_of_compares hm hg h, ← accepts_of_compares hm hg h, Except.ok.injEq,
        Bool.eq_iff_iff]
      exact (imp_iff_right h).symm
    · exact iff_of_true (isMatch_of_not_compares hm hg h c) fun h' => absurd h' h
  refine ⟨fun c => by rw [hpoint, matchesLiteral_iff], ?_⟩
  simp only [hpoint]
  constructor
  · intro hall h
    have hexact (c : List Char) := hall c h
    have hslash : '\\' ∉ pattern := by
      intro hmem
      obtain ⟨c, hc⟩ := exists_inexact_of_backslash hmem
      exact hc (hexact c)
    refine ⟨hslash, fun rest hdir hmem => ?_⟩
    obtain ⟨c, hc⟩ := exists_inexact_of_separator hslash hdir hmem
    exact hc (hexact c)
  · intro hexact c h
    obtain ⟨hslash, hdir⟩ := hexact h
    exact matchesLiteral_exact hslash hdir c

theorem isMatch_iff_accepts_cleared :
    ∃ g, ((performAll {} [.registerDefaults, .clearCache]).makeRegex "a b/c".toList none none).2 =
        .ok g ∧
      ∀ c, ((performAll {} [.registerDefaults, .clearCache]).isMatch c "a b/c".toList none none).2 =
        .ok (g.accepts c) := by
  have hg : ((performAll {} [.registerDefaults, .clearCache]).makeRegex "a b/c".toList none
    none).2 = .ok _ := rfl
  refine ⟨_, hg, ((isMatch_iff_accepts rfl hg).2).mpr fun _ => ⟨by decide, fun rest hdir => ?_⟩⟩
  cases hdir

/-- Behind a leading `./` a backslash of the candidate stands for no separator in the shortcut. -/
theorem isMatch_ne_accepts_dotted :
    ∃ g, (({} : Matcher).makeRegex "./a/b".toList none none).2 = .ok g ∧
      (({} : Matcher).isMatch "a\\b".toList "./a/b".toList none none).2 = .ok false ∧
        g.accepts "a\\b".toList = true := by
  have hg : (({} : Matcher).makeRegex "./a/b".toList none none).2 = .ok _ := rfl
  exact ⟨_, hg, rfl, by decide +kernel⟩

end Matcher

end Wildcard
