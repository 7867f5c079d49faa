import Wildcard.Proofs.Glob.Order

/-!
# Segments and their boundaries

No wildcard, group or negated class of a pattern stands for a separator. A class that is not negated
may: nothing keeps a separator out of its ranges and named sets. So a pattern of one segment accepts
nothing beyond a segment as long as none of these classes lists a separator, and if one does, then
as a rule some accepted candidate shows it.

* `Bracket.stays_item`: negated classes match no separator.
* `Glob.reaches_classes`: every character of a class stands in some word of the pattern.
* `isFoundIn_within_segment`: which patterns of one segment accept no separator.
-/

namespace Wildcard

open Regex (Single)

/-! ## 1. Negated classes -/

namespace Bracket

open Regex (Literal Member)

theorem member_ne_hyphen (c : Char) : Literal.member c ≠ .bare '-' := by
  unfold Literal.member
  split
  · exact nofun
  · rename_i hspecial
    intro h
    cases h
    exact hspecial rfl

/-- What a class is written as ends in no hyphen that could make a range with what is written
    behind. -/
theorem getLast?_itemsFrom (n : Nat) (p : Position) (cs : List Char) :
    (itemsFrom n p cs).getLast? ≠ some (.bare '-') := by
  fun_induction itemsFrom n p cs with
  | case1 => exact (Option.some_ne_none _).symm
  | case2 _ _ _ _ ih => exact ih
  | case3 _ c rest ih =>
    rw [List.getLast?_cons]
    cases hlast : (itemsFrom 0 .within rest).getLast? with
    | none => exact fun h => member_ne_hyphen c (Option.some.inj h)
    | some l =>
      rw [hlast] at ih
      exact ih
  | case4 p c rest _ literals n hn ih =>
    have hnames : ∀ e ∈ namedClasses, e.2.getLast? ≠ some (.bare '-') := by decide
    split at hn
    · obtain ⟨e, he, rfl⟩ := mem_namedClasses hn
      rw [List.getLast?_append]
      cases hlast : (itemsFrom (n + 3) .afterName rest).getLast? with
      | none => exact hnames e he
      | some l =>
        rw [hlast] at ih
        exact ih
    · cases hn
  | case5 p c rest _ _ ih =>
    rw [List.getLast?_cons]
    cases hlast : (itemsFrom 0 .within rest).getLast? with
    | none =>
      -- a hyphen at the end stands for itself
      have hrest : rest = [] := by
        by_contra hne
        exact itemsFrom_ne_nil .within hne (List.getLast?_eq_none_iff.mp hlast)
      rw [if_neg fun h => h.2.2 hrest]
      exact fun h => member_ne_hyphen c (Option.some.inj h)
    | some l =>
      rw [hlast] at ih
      exact ih

/-- **A negated class matches no separator.** -/
theorem stays_item {body : List Char} (h : negationLength body ≠ 0) : (item body).Stays := by
  have hitems : Member.ofLiterals (itemsFrom 0 .first (body.drop 1) ++ [.bare '/']) =
      Member.ofLiterals (itemsFrom 0 .first (body.drop 1)) ++ [.single '/'] :=
    ofLiterals_append (getLast?_itemsFrom _ _ _) (by decide)
  rw [item, if_neg h, Single.Stays, Single.accepts, isListed_exact, hitems]
  simp [Member.accepts]

end Bracket

/-! ## 2. Words and classes -/

namespace Glob

/-- There is a word, and every character of one of the classes stands in some word. -/
def Reaches (words : List Char → Prop) (classes : List (List Char)) : Prop :=
  (∃ w, words w) ∧ ∀ cls ∈ classes, ∀ c, Bracket.Contains cls c → ∃ w, words w ∧ c ∈ w

variable {words words' : List Char → Prop} {cs cs' : List (List Char)}

/-- Words that take the others into themselves reach the same classes. -/
theorem Reaches.into (h : Reaches words cs)
    (hinto : ∀ w, words w → ∃ w', words' w' ∧ ∀ c ∈ w, c ∈ w') : Reaches words' cs := by
  obtain ⟨⟨w, hw⟩, hreach⟩ := h
  obtain ⟨w', hw', -⟩ := hinto w hw
  refine ⟨⟨w', hw'⟩, fun cls hcls c hc => ?_⟩
  obtain ⟨v, hv, hmem⟩ := hreach cls hcls c hc
  obtain ⟨v', hv', hsub⟩ := hinto v hv
  exact ⟨v', hv', hsub c hmem⟩

/-- Words in front of others reach the classes of both. -/
theorem Reaches.append (h : Reaches words cs) (h' : Reaches words' cs') :
    Reaches (fun w => ∃ x y, words x ∧ words' y ∧ w = x ++ y) (cs ++ cs') := by
  obtain ⟨⟨x, hx⟩, hreach⟩ := h
  obtain ⟨⟨y, hy⟩, hreach'⟩ := h'
  refine ⟨⟨_, x, y, hx, hy, rfl⟩, fun cls hcls c hc => ?_⟩
  rcases List.mem_append.mp hcls with hcls | hcls
  · obtain ⟨z, hz, hmem⟩ := hreach cls hcls c hc
    exact ⟨_, ⟨z, y, hz, hy, rfl⟩, List.mem_append_left y hmem⟩
  · obtain ⟨z, hz, hmem⟩ := hreach' cls hcls c hc
    exact ⟨_, ⟨x, z, hx, hz, rfl⟩, List.mem_append_right x hmem⟩

/-- The words of some pieces reach the classes of all of them. -/
theorem reaches_pieces {pieces : List Glob} (hne : pieces ≠ [])
    (h : ∀ p ∈ pieces, Reaches p.Denotes p.classes) :
    Reaches (fun w => ∃ p ∈ pieces, p.Denotes w) (pieces.flatMap classes) := by
  obtain ⟨p, hp⟩ := List.exists_mem_of_ne_nil pieces hne
  obtain ⟨⟨w, hw⟩, -⟩ := h p hp
  refine ⟨⟨w, p, hp, hw⟩, fun cls hcls c hc => ?_⟩
  obtain ⟨q, hq, hcls⟩ := List.mem_flatMap.mp hcls
  obtain ⟨v, hv, hmem⟩ := (h q hq).2 cls hcls c hc
  exact ⟨v, ⟨q, hq, hv⟩, hmem⟩

/-- A class that holds something reaches itself. -/
theorem reaches_class {body : List Char} (h : ∃ c, Bracket.Contains body c) :
    Reaches (fun w => ∃ c, Bracket.Contains body c ∧ w = [c]) [body] := by
  obtain ⟨c, hc⟩ := h
  refine ⟨⟨_, c, hc, rfl⟩, List.forall_mem_singleton.mpr fun d hd => ?_⟩
  exact ⟨_, ⟨d, hd, rfl⟩, List.mem_singleton_self d⟩

/-! ### Parts of a pattern -/

/-- A piece of a pattern is no longer than the pattern. -/
theorem length_le_of_mem_pieces {d : Char} {g p : Glob} (h : p ∈ g.pieces d) :
    p.length ≤ g.length := by
  rw [← length_text, ← length_text g, ← text_splitOn d g]
  rcases List.mem_cons.mp h with rfl | h
  · exact (List.sublist_append_left _ _).length_le
  · have hpiece : (d :: p.text).Sublist ((g.splitOn d).2.flatMap fun p => d :: p.text) :=
      List.sublist_flatten_of_mem (List.mem_map_of_mem h)
    exact ((List.sublist_cons_self d p.text).trans
      (hpiece.trans (List.sublist_append_right _ _))).length_le

theorem dropStars_spec (g : Glob) :
    g.dropStars.length ≤ g.length ∧ g.dropStars.classes = g.classes ∧
      (g.NegationFree → g.dropStars.NegationFree) := by
  fun_induction dropStars g with
  | case1 rest ih =>
    obtain ⟨hlength, hclasses, hneg⟩ := ih
    exact ⟨Nat.le_succ_of_le hlength, hclasses, fun h => hneg h.2⟩
  | case2 g => exact ⟨Nat.le_refl _, rfl, id⟩

/-- A marked group may be taken once. -/
theorem denotes_marked {c : Char} {body rest : Glob} {w : List Char} (hmark : isGroupMark c = true)
    (hneg : c ≠ '!') (h : Denotes (group .parens body rest) w) :
    Denotes (char c (group .parens body rest)) w := by
  simp only [isGroupMark, List.mem_cons, List.not_mem_nil, or_false, decide_eq_true_eq] at hmark
  cases h with
  | parens hp hx hy =>
    rcases hmark with rfl | rfl | rfl | rfl | rfl
    · exact .atMostOnce (.parens hp hx hy)
    · exact .onceMore hp hx (.noMore hy)
    · exact .atLeastOnce hp hx (.noMore hy)
    · exact .exactlyOnce (.parens hp hx hy)
    · exact absurd rfl hneg

theorem reaches_char {c : Char} {rest : Glob} (hneg : (char c rest).NegationFree)
    (hrest : Reaches rest.Denotes rest.classes)
    (hdropped : Reaches rest.dropStars.Denotes rest.classes) :
    Reaches (char c rest).Denotes rest.classes := by
  by_cases hopens : rest.OpensGroup
  · obtain ⟨body, rest, rfl⟩ := opensGroup_iff.mp hopens
    by_cases hmark : isGroupMark c = true
    · have hc : c ≠ '!' := fun h => hneg.1 h trivial
      exact hrest.into fun w hw => ⟨w, denotes_marked hmark hc hw, fun _ => id⟩
    · have hstar : c ≠ '*' := fun h => hmark (by rw [h]; rfl)
      have hany : c ≠ '?' := fun h => hmark (by rw [h]; rfl)
      exact hrest.into fun w hw =>
        ⟨c :: w, .char hstar hany (fun h => absurd h hmark) hw, fun _ => List.mem_cons_of_mem c⟩
  · by_cases hstar : c = '*'
    · rw [hstar]
      exact hdropped.into fun w hw => ⟨[] ++ w, .stars hopens List.not_mem_nil hw, fun _ => id⟩
    · by_cases hany : c = '?'
      · rw [hany]
        exact hrest.into fun w hw =>
          ⟨'a' :: w, .anyChar hopens (by decide) hw, fun _ => List.mem_cons_of_mem 'a'⟩
      · exact hrest.into fun w hw =>
          ⟨c :: w, .char hstar hany (fun _ => hopens) hw, fun _ => List.mem_cons_of_mem c⟩

theorem reaches_group {k : Grouping} {body rest : Glob}
    (hpieces : ∀ d, Reaches (fun w => ∃ p ∈ body.pieces d, p.Denotes w) body.classes)
    (hbody : Reaches body.Denotes body.classes) (hrest : Reaches rest.Denotes rest.classes) :
    Reaches (group k body rest).Denotes (body.classes ++ rest.classes) := by
  cases k with
  | parens =>
    exact ((hpieces '|').append hrest).into fun w hw => ⟨w, denotes_parens.mpr hw, fun _ => id⟩
  | braces =>
    cases hcomma : body.hasBare ',' with
    | true =>
      exact ((hpieces ',').append hrest).into fun w hw =>
        ⟨w, (denotes_choice hcomma).mpr hw, fun _ => id⟩
    | false =>
      cases hrange : Range.expand? body.text with
      | none =>
        refine (hbody.append hrest).into ?_
        rintro w ⟨x, y, hx, hy, rfl⟩
        refine ⟨_, (denotes_braces hcomma hrange).mpr ⟨x, y, hx, hy, rfl⟩, fun c hc => ?_⟩
        rcases List.mem_append.mp hc with hc | hc
        · simp [hc]
        · simp [hc]
      | some values =>
        obtain ⟨x, hx⟩ := List.exists_mem_of_ne_nil values (Range.mem_expand? hrange).1
        rw [classes_of_expand? hrange]
        refine hrest.into fun w hw => ⟨x ++ w, ?_, fun _ => List.mem_append_right x⟩
        exact (denotes_value hcomma hrange).mpr ⟨x, w, hx, hw, rfl⟩

/-- **Every character of a class of a pattern stands in some word of the pattern**, if no group is
    negated and each class holds something. -/
theorem reaches_classes {g : Glob} (hneg : g.NegationFree)
    (hfull : ∀ cls ∈ g.classes, ∃ c, Bracket.Contains cls c) : Reaches g.Denotes g.classes := by
  -- the pieces of a group, and what follows a run of stars, are shorter, but not what the items of
  -- the chain are made of
  induction hlength : g.length using Nat.strong_induction_on generalizing g with
  | _ n ih =>
    subst hlength
    cases g with
    | done => exact ⟨⟨[], .done⟩, List.forall_mem_nil _⟩
    | char c rest =>
      obtain ⟨hlength, hclasses, hdrop⟩ := dropStars_spec rest
      have hdropped : Reaches rest.dropStars.Denotes rest.classes := by
        rw [← hclasses]
        exact ih _ (Nat.lt_succ_of_le hlength) (hdrop hneg.2) (by rwa [hclasses]) rfl
      exact reaches_char hneg (ih _ (Nat.lt_succ_self _) hneg.2 hfull rfl) hdropped
    | escaped c rest =>
      have hrest : Reaches rest.Denotes rest.classes :=
        ih _ (by rw [length]; omega) hneg hfull rfl
      exact hrest.into fun w hw => ⟨c :: w, .escaped hw, fun _ => List.mem_cons_of_mem c⟩
    | bracket body rest =>
      obtain ⟨hbody, hothers⟩ := List.forall_mem_cons.mp hfull
      have hrest : Reaches rest.Denotes rest.classes :=
        ih _ (by rw [length]; omega) hneg hothers rfl
      refine ((reaches_class hbody).append hrest).into ?_
      rintro w ⟨x, y, ⟨c, hc, rfl⟩, hy, rfl⟩
      exact ⟨c :: y, denotes_bracket.mpr ⟨c, y, hc, hy, rfl⟩, fun _ => id⟩
    | group k body rest =>
      obtain ⟨hbody, hothers⟩ := List.forall_mem_append.mp hfull
      refine reaches_group (fun d => ?_) (ih _ (by rw [length]; omega) hneg.1 hbody rfl)
        (ih _ (by rw [length]; omega) hneg.2 hothers rfl)
      rw [← (pieces_spec d body).2] at hbody ⊢
      refine reaches_pieces (List.cons_ne_nil _ _) fun p hp => ?_
      have hshorter : p.length < (group k body rest).length := by
        have hle := length_le_of_mem_pieces hp
        rw [length]
        omega
      exact ih _ hshorter (negationFree_splitOn hneg.1 p hp)
        (fun cls hcls => hbody cls (List.mem_flatMap.mpr ⟨p, hp, hcls⟩)) rfl

end Glob

/-! ## 3. Compiled patterns -/

namespace CompiledGlob

variable {pattern : List Char} {options : Option MatchOptions} {negated : Option Bool}
  {serial : Nat} {g : CompiledGlob}

/-- A pattern of one segment whose classes match no separator accepts nothing beyond a segment. -/
theorem not_mem_of_stays (hslash : '/' ∉ pattern) (hstars : ¬ (Glob.read pattern).IsGlobstar)
    (h : ofPattern pattern options negated serial = .ok g)
    (hstays : ∀ cls ∈ (Glob.read pattern).classes, (Bracket.item cls).Stays) (c : List Char)
    (hc : g.isFoundIn c = true) : '/' ∉ c := by
  obtain ⟨-, hfound⟩ := isFoundIn_ofPattern h
  have hwritten : (Glob.read pattern).WrittenIn Single.Stays '/' :=
    Glob.writtenIn_of_classes hstays rfl rfl
      (fun hmem => absurd (by rwa [Glob.text_read] at hmem) hslash) '/'
  have hsegment := Glob.translation_segment (L := True) Glob.admits_stays
    (MatchOptions.matchesDot options) hwritten (.inl trivial)
  have hspan := (hfound c).mp hc
  rw [Segmentation.middle_of_one_segment hslash hstars] at hspan
  have hlocal : Regex.Local ((((Glob.read pattern).segment
      (MatchOptions.matchesDot options)).regex.compared g.regex.flags).Spans
        (g.regex.flags.subject c)) :=
    Regex.local_spans (hsegment.compared Regex.stays_marked g.regex.flags)
  obtain ⟨x, hx, hcx⟩ := hlocal.within c [] hspan
  rwa [hcx, List.append_nil]

/-- **A pattern of one segment accepts nothing beyond a segment**, under all options, unless one of
    its classes lists a separator without being negated: groups of any kind may stand in it, negated
    ones too. Where case counts, wildcards match leading dots, no group is negated and each class
    holds something, no other patterns do. -/
theorem isFoundIn_within_segment (hslash : '/' ∉ pattern)
    (hstars : ¬ (Glob.read pattern).IsGlobstar)
    (h : ofPattern pattern options negated serial = .ok g) :
    ((∀ cls ∈ (Glob.read pattern).classes, Bracket.negationLength cls = 0 →
        (Bracket.item cls).Stays) → ∀ c, g.isFoundIn c = true → '/' ∉ c) ∧
      (MatchOptions.matchesDot options = true → g.regex.flags.ignoreCase = false →
        (Glob.read pattern).NegationFree → (Glob.read pattern).NamesApart →
          (∀ cls ∈ (Glob.read pattern).classes, ∃ c, Bracket.Contains cls c) →
            ((∀ c, g.isFoundIn c = true → '/' ∉ c) ↔
              ∀ cls ∈ (Glob.read pattern).classes, ¬ Bracket.Contains cls '/')) := by
  have hwithin (hstays : ∀ cls ∈ (Glob.read pattern).classes, Bracket.negationLength cls = 0 →
      (Bracket.item cls).Stays) : ∀ c, g.isFoundIn c = true → '/' ∉ c := by
    refine not_mem_of_stays hslash hstars h fun cls hcls => ?_
    by_cases hnegation : Bracket.negationLength cls = 0
    · exact hstays cls hcls hnegation
    · exact Bracket.stays_item hnegation
  refine ⟨hwithin, fun hdot hcase hneg hnames hfull => ⟨fun hall cls hcls hslash' => ?_, ?_⟩⟩
  · obtain ⟨w, hw, hmem⟩ := (Glob.reaches_classes hneg hfull).2 cls hcls '/' hslash'
    exact hall w ((isFoundIn_iff_word hdot hcase hslash hstars hneg hnames h w).mpr hw) hmem
  · intro hno
    refine hwithin fun cls hcls _ => Bool.eq_false_iff.mpr fun haccepts => hno cls hcls ?_
    exact (Bracket.accepts_item_iff (Glob.namesApart_iff.mp hnames cls hcls) false '/').mp haccepts

/-- Groups, negated classes and named sets that keep within a segment, and a range that does not. -/
theorem isFoundIn_within_segment_grouped :
    (∃ g, ofPattern "+(?|[!b-d])!([[:alnum:]])*".toList none none 0 = .ok g ∧
      ∀ c, g.isFoundIn c = true → '/' ∉ c) ∧
    ∃ g, ofPattern "@(x|[+-9])".toList (some { dot := true }) none 0 = .ok g ∧
      ¬ ∀ c, g.isFoundIn c = true → '/' ∉ c := by
  have h : ofPattern "+(?|[!b-d])!([[:alnum:]])*".toList none none 0 = .ok _ := rfl
  have h' : ofPattern "@(x|[+-9])".toList (some { dot := true }) none 0 = .ok _ := rfl
  have hslash : Bracket.Contains "+-9".toList '/' := .inl ⟨'+', rfl, '9', rfl, by decide, by decide⟩
  have hfull : ∀ cls ∈ (Glob.read "@(x|[+-9])".toList).classes, ∃ c, Bracket.Contains cls c :=
    List.forall_mem_singleton.mpr ⟨'/', hslash⟩
  refine ⟨⟨_, h, (isFoundIn_within_segment (by decide) (by decide) h).1 (by decide)⟩, _, h', ?_⟩
  rw [(isFoundIn_within_segment (by decide) (by decide) h').2 rfl rfl (by decide) (by decide) hfull]
  exact fun hno => hno _ List.mem_cons_self hslash

/-- A range that runs over the separator matches it. -/
theorem isFoundIn_separator_in_range :
    '/' ∉ "a[+-9]c".toList ∧ ¬ (Glob.read "a[+-9]c".toList).IsGlobstar ∧
      ∃ g, ofPattern "a[+-9]c".toList none none 0 = .ok g ∧
        g.isFoundIn "a/c".toList = true ∧ '/' ∈ "a/c".toList := by
  have h : ofPattern "a[+-9]c".toList none none 0 = .ok _ := rfl
  exact ⟨by decide, by decide, _, h, by decide +kernel, by decide⟩

end CompiledGlob

end Wildcard
