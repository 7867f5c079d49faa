import Wildcard.Proofs.Flags
import Wildcard.Proofs.Regex.Caseless

/-!
# Groups under flags

Under flags that ignore case, what is in a group is compared with its choices marked, and the rest
of a regex stays as it is. So groups are taken apart under flags like other items.

* `spansUnder_group`, `spansUnder_exceptFor`: one equation for each kind of
  group.
* `insideUnder_alternatives`: alternatives in a group span what one of them spans, as long as
  marking does not change what their items accept (`Single.Steady`). That is so for all characters
  of the basic plane.
-/

namespace Wildcard.Regex

variable {flags : Flags} {text u v : List Char} {body tail rest : Regex} {q : Quantifier}

/-! ## 1. Contents of groups -/

/-- The contents of a group as they are matched under flags: where case is ignored, the choices
    among them are marked. -/
def comparedInside (flags : Flags) (r : Regex) : Regex :=
  if flags.ignoreCase then r.markInside.markIfSet else r

/-- What the contents of a group span in a text under flags. -/
def InsideUnder (flags : Flags) (text : List Char) (r : Regex) : List Char → List Char → Prop :=
  (r.comparedInside flags).Spans (flags.subject text)

theorem compared_group (k : GroupKind) :
    (group k body q rest).compared flags =
      group k (body.comparedInside flags) q (rest.compared flags) := by
  unfold compared comparedInside
  split <;> rfl

/-- A group under flags, in front of the rest. -/
theorem spansUnder_group (h : rest.BarFree) :
    SpansUnder flags text (group .plain body q rest) u v ↔
      ∃ w, q.Spans (InsideUnder flags text body) u w ∧ SpansUnder flags text rest w v := by
  rw [SpansUnder, compared_group, spans_group (barFree_compared flags h)]
  exact Iff.rfl

/-- A group that lets everything through but a leading dot, and that only where some text comes
    next. -/
theorem spansUnder_notDot_or_ahead :
    SpansUnder flags text (grouped (notDot (bar (group .ahead body .once done))) .once) u v ↔
      (u.head? ≠ some '.' ∨ ∃ w, InsideUnder flags text body u w) ∧ u = v := by
  have hcompared : (grouped (notDot (bar (group .ahead body .once done))) .once).compared flags =
      grouped ((notDot done).compared flags ++
        bar (group .ahead (body.comparedInside flags) .once done)) .once := by
    unfold compared comparedInside
    split <;> rfl
  have hguard : (notDot done).BarFree := barFree_done
  have halone : ((notDot done).compared flags).Spans (flags.subject text) u v ↔
      u.head? ≠ some '.' ∧ u = v := spansUnder_notDot_done
  rw [SpansUnder, hcompared, spans_grouped]
  change (_ ++ bar _ : Regex).Spans _ u v ↔ _
  rw [spans_append_bar (barFree_compared flags hguard), halone, spans_ahead barFree_done, spans_done,
    or_and_right]
  exact Iff.rfl

/-- A wildcard for any number of characters, in front of the rest. -/
theorem spansUnder_stars (h : rest.BarFree) :
    SpansUnder flags text (single .notSeparator .star rest) u v ↔
      ∃ x w, '/' ∉ x ∧ u = x ++ w ∧ SpansUnder flags text rest w v := by
  rw [SpansUnder, compared_single, spans_single (barFree_compared flags h)]
  simp only [Quantifier.Spans, repeated_reads, accepts_notSeparator, bne_iff_ne]
  constructor
  · rintro ⟨w, ⟨x, hx, rfl⟩, hw⟩
    exact ⟨x, w, fun hmem => hx '/' hmem rfl, rfl, hw⟩
  · rintro ⟨x, w, hx, rfl, hw⟩
    exact ⟨w, ⟨x, fun c hc e => hx (e ▸ hc), rfl⟩, hw⟩

theorem spans_lazyStars {t : Subject} :
    (single .notSeparator .lazyStar done).Spans t u v ↔ ∃ x, '/' ∉ x ∧ u = x ++ v := by
  rw [spans_single barFree_done]
  simp only [Quantifier.Spans, repeated_reads, accepts_notSeparator, bne_iff_ne, spans_done,
    exists_eq_right]
  constructor
  · rintro ⟨x, hx, rfl⟩
    exact ⟨x, fun hmem => hx '/' hmem rfl, rfl⟩
  · rintro ⟨x, hx, rfl⟩
    exact ⟨x, fun c hc e => hx (e ▸ hc), rfl⟩

theorem compared_exceptFor (htail : tail.BarFree) :
    (exceptFor body tail rest).compared flags =
      exceptFor (body.comparedInside flags) (tail.compared flags) (rest.compared flags) := by
  unfold compared comparedInside
  split
  · have hend : segmentEnd.markInside = segmentEnd := rfl
    have hbehind : (tail.markInside ++ segmentEnd).BarFree :=
      (barFree_markInside htail).append barFree_done
    have hinner : (group .plain body .once (tail ++ segmentEnd)).markInside.markIfSet =
        group .plain body.markInside.markIfSet .once (tail.markInside ++ segmentEnd) := by
      rw [markInside, Translation.markInside_append, hend]
      exact Translation.markIfSet_of_barFree hbehind
    have hfront (b : Regex) :
        (group .notAhead b .once (single .notSeparator .lazyStar done).markInside).markIfSet =
          group .notAhead b .once (single .notSeparator .lazyStar done) :=
      Translation.markIfSet_of_barFree barFree_done
    rw [exceptFor, markInside, markInside, hinner, hfront]
    rfl
  · rfl

/-- **A negated group under flags** reads what stays in the segment, unless its contents and what it
    looks at behind them reach to the end of the segment. -/
theorem spansUnder_exceptFor (htail : tail.BarFree) (hrest : rest.BarFree) :
    SpansUnder flags text (exceptFor body tail rest) u v ↔
      (¬ ∃ k, (∃ i, InsideUnder flags text body u i ∧ SpansUnder flags text tail i k) ∧ Edge k) ∧
        ∃ x w, '/' ∉ x ∧ u = x ++ w ∧ SpansUnder flags text rest w v := by
  rw [SpansUnder, compared_exceptFor htail,
    spans_exceptFor (barFree_compared flags htail) (barFree_compared flags hrest)]
  simp only [spans_lazyStars]
  constructor
  · rintro ⟨w, ⟨hno, x, hx, hu⟩, hw⟩
    exact ⟨hno, x, w, hx, hu, hw⟩
  · rintro ⟨hno, x, w, hx, hu, hw⟩
    exact ⟨w, ⟨hno, x, hx, hu⟩, hw⟩

/-! ## 2. Marking that changes nothing -/

/-- Marking the item as a choice does not change what it accepts. -/
def Single.Steady (rule : CaseRule) (s : Single) : Prop :=
  ∀ dotAll, s.marked.accepts rule dotAll = s.accepts rule dotAll

theorem Single.marked_marked (s : Single) : s.marked.marked = s.marked := by
  cases s with
  | literal l => rfl
  | choice l => rfl
  | dot => rfl
  | set negated items =>
    match negated, items with
    | true, _ => rfl
    | false, [] => rfl
    | false, l :: rest =>
      by_cases h : (onlyMember? (Member.ofLiterals (l :: rest))).isSome = true
      · simp only [marked, if_pos h]
      · simp only [marked, if_neg h]

variable {rule : CaseRule}

theorem Single.steady_marked (s : Single) : s.marked.Steady rule := fun _ => by rw [marked_marked]

/-- The character is compared alike by itself and as a member of a set: where the case of all
    letters is ignored, it must stand in the basic plane or be its own lower case. -/
def EvenUnder (rule : CaseRule) (c : Char) : Prop :=
  rule = .unicode → lastBasic < c → Text.lower c = c

theorem evenUnder_of_basic {c : Char} (h : c ≤ lastBasic) : EvenUnder rule c :=
  fun _ hbeyond => absurd hbeyond (Char.not_lt.mpr h)

/-- Then a member of a set is compared like a character. -/
theorem Member.accepts_single_of_even {x : Char} (h : EvenUnder rule x) :
    (Member.single x).accepts rule = acceptsChar rule x := by
  funext c
  cases rule with
  | exact => rfl
  | ascii => rfl
  | unicode =>
    by_cases hx : lastBasic < x
    · refine (if_pos hx).trans ?_
      rw [acceptsChar, Bool.eq_iff_iff, beq_iff_eq, List.contains_iff_mem]
      exact (mem_fold_iff_of_lower (h rfl hx) hx).symm
    · exact if_neg hx

theorem Single.steady_literal {l : Literal} (h : EvenUnder rule l.char) :
    (literal l).Steady rule :=
  fun _ => Member.accepts_single_of_even h

theorem Single.steady_set {negated : Bool} {items : List Literal}
    (h : ∀ l ∈ items, EvenUnder rule l.char) : (set negated items).Steady rule := by
  intro dotAll
  match negated, items with
  | true, _ => rfl
  | false, [] => rfl
  | false, l :: rest =>
    simp only [marked]
    split
    · rename_i honly
      obtain ⟨x, hx⟩ := Option.isSome_iff_exists.mp honly
      funext c
      rw [accepts, accepts, Member.accepts_single_of_even (h l List.mem_cons_self), isListed, hx,
        char_of_onlyMember? hx]
      exact (Bool.bne_false _).symm
    · rfl

/-- Marking the last characters keeps a property of the items that marking an item keeps. -/
theorem each_markLast {P : Single → Prop} (hP : ∀ s, P s → P s.marked) {r : Regex}
    (h : r.Each P) : r.markLast.1.Each P := by
  induction r with
  | done => trivial
  | single s q rest ih =>
    rw [markLast]
    split
    · exact ⟨h.1, ih h.2⟩
    · exact ⟨hP s h.1, ih h.2⟩
  | anchor a rest ih => exact ih h
  | group k body q rest ihb ihr =>
    rw [markLast]
    split
    · exact ⟨h.1, ihr h.2⟩
    · exact ⟨ihb h.1, ihr h.2⟩
  | bar rest ih => exact ih h

theorem each_markIfSet {P : Single → Prop} (hP : ∀ s, P s → P s.marked) {r : Regex}
    (h : r.Each P) : r.markIfSet.Each P := by
  unfold markIfSet
  split
  · exact h
  · split
    · exact each_markLast hP h
    · exact h

theorem each_markInside {P : Single → Prop} (hP : ∀ s, P s → P s.marked) {r : Regex}
    (h : r.Each P) : r.markInside.Each P := by
  induction r with
  | done => trivial
  | single s q rest ih => exact ⟨h.1, ih h.2⟩
  | anchor a rest ih => exact ih h
  | group k body q rest ihb ihr => exact ⟨each_markIfSet hP (ihb h.1), ihr h.2⟩
  | bar rest ih => exact ih h

/-- Marking items that are steady changes nothing in matching. -/
theorem spansBy_markLast (t : Subject) {r : Regex} (h : r.Each (Single.Steady t.rule)) :
    r.markLast.1.SpansBy t = r.SpansBy t := by
  induction r with
  | done => rfl
  | single s q rest ih =>
    rw [markLast]
    split
    · funext later u v
      simp only [SpansBy, ih h.2]
    · funext later u v
      simp only [SpansBy, ih h.2, h.1 t.dotAll]
  | anchor a rest ih =>
    funext later u v
    simp only [markLast, SpansBy, ih h]
  | group k body q rest ihb ihr =>
    rw [markLast]
    split
    · funext later u v
      simp only [SpansBy, ihr h.2]
    · funext later u v
      simp only [SpansBy, ihb h.1, ihr h.2]
  | bar rest ih =>
    funext later u v
    simp only [markLast, SpansBy, ih h]

/-! ## 3. Alternatives that are no set -/

/-- The alternatives of the regex are a set in effect. -/
def IsSet (r : Regex) : Prop := r.plains.2 ≠ [] ∧ (joined? r.plains).isSome = true

theorem markIfSet_of_not_isSet {r : Regex} (h : ¬ r.IsSet) : r.markIfSet = r := by
  unfold markIfSet
  split
  · rfl
  · rename_i hmany
    refine if_neg fun hset => h ⟨fun hnone => ?_, hset⟩
    exact hmany r.plains.1 (Prod.ext rfl hnone)

/-- A marked item is spelled otherwise, but stands for the same. -/
theorem Single.plain_marked (s : Single) : s.marked.plain = s.plain := by
  cases s with
  | literal l => rfl
  | choice l => rfl
  | dot => rfl
  | set negated items =>
    match negated, items with
    | true, _ => rfl
    | false, [] => rfl
    | false, l :: rest =>
      simp only [marked]
      split
      · rename_i honly
        obtain ⟨x, hx⟩ := Option.isSome_iff_exists.mp honly
        simp only [plain, hx, char_of_onlyMember? hx]
      · rfl

theorem plains_markLast (r : Regex) : r.markLast.1.plains = r.plains := by
  induction r with
  | done => rfl
  | single s q rest ih =>
    rw [markLast]
    split <;> cases q <;> simp only [plains, ih, Single.plain_marked]
  | anchor a rest ih => simp only [markLast, plains, ih]
  | group k body q rest ihb ihr =>
    rw [markLast]
    split <;> cases k <;> cases q <;> simp only [plains, ihb, ihr]
  | bar rest ih => simp only [markLast, plains, ih]

theorem plains_markIfSet (r : Regex) : r.markIfSet.plains = r.plains := by
  unfold markIfSet
  split
  · rfl
  · split
    · exact plains_markLast r
    · rfl

theorem plains_markInside (r : Regex) : r.markInside.plains = r.plains := by
  induction r with
  | done => rfl
  | single s q rest ih => cases q <;> simp only [markInside, plains, ih]
  | anchor a rest ih => simp only [markInside, plains, ih]
  | group k body q rest ihb ihr =>
    cases k <;> cases q <;> simp only [markInside, plains, plains_markIfSet, ihb, ihr]
  | bar rest ih => simp only [markInside, plains, ih]

/-- Marking within groups makes no set of the alternatives. -/
theorem isSet_markInside {r : Regex} : r.markInside.IsSet ↔ r.IsSet := by
  unfold IsSet
  rw [plains_markInside]

theorem plains_append_bar {r s : Regex} (hr : r.BarFree) :
    (r ++ bar s).plains = (r.plains.1, s.plains.1 :: s.plains.2) := by
  induction r with
  | done => rfl
  | single x q rest ih =>
    change (single x q (rest ++ bar s)).plains = _
    cases q <;> simp only [plains, ih hr]
  | anchor a rest ih =>
    change (anchor a (rest ++ bar s)).plains = _
    simp only [plains, ih hr]
  | group k body q rest _ ih =>
    change (group k body q (rest ++ bar s)).plains = _
    cases k <;> cases q <;> simp only [plains, ih hr]
  | bar rest => exact hr.elim

/-- An alternative given twice is no set. -/
theorem not_isSet_twice {r : Regex} (hr : r.BarFree) : ¬ (alternatives r [r]).IsSet := by
  rintro ⟨-, hset⟩
  change (joined? (r ++ bar r).plains).isSome = true at hset
  rw [plains_append_bar hr, Translation.snd_plains hr] at hset
  cases hplains : r.plains.1 with
  | none =>
    rw [hplains] at hset
    cases hset
  | some xs =>
    rw [hplains] at hset
    have hagree : asSet? xs [xs] = none := by
      unfold asSet?
      split
      · dsimp only
        split
        · exact if_neg (by simp)
        · rfl
      · rfl
    change (asSet? xs [xs]).isSome = true at hset
    rw [hagree] at hset
    cases hset

theorem spans_markIfSet (t : Subject) {r : Regex}
    (h : r.IsSet → r.Each (Single.Steady t.rule)) : r.markIfSet.Spans t u v ↔ r.Spans t u v := by
  by_cases hset : r.IsSet
  · unfold markIfSet
    split
    · exact Iff.rfl
    · split
      · rw [Spans, Spans, spansBy_markLast t (h hset)]
      · exact Iff.rfl
  · rw [markIfSet_of_not_isSet hset]

/-- **Alternatives in a group span what one of them spans**, under flags that ignore case only if
    they are no set in effect or their items are steady. -/
theorem insideUnder_alternatives {first : Regex} {others : List Regex}
    (hbar : ∀ x ∈ first :: others, x.BarFree)
    (hsteady : flags.ignoreCase = true → (alternatives first others).IsSet →
      ∀ x ∈ first :: others, x.Each (Single.Steady flags.caseRule)) :
    InsideUnder flags text (alternatives first others) u v ↔
      ∃ x ∈ first :: others, SpansUnder flags text x u v := by
  unfold InsideUnder SpansUnder comparedInside compared
  split
  · rename_i hcase
    have hall : (alternatives first others).markInside.IsSet →
        (alternatives first others).markInside.Each (Single.Steady flags.caseRule) := fun hset =>
      each_markInside (fun s _ => s.steady_marked)
        (Translation.alternatives_of (fun hr hs => (each_append _ _).mpr ⟨hr, hs⟩) id
          (hsteady hcase (isSet_markInside.mp hset)))
    have hbars : ∀ x ∈ first.markInside :: others.map markInside, x.BarFree := by
      rw [← List.map_cons]
      exact List.forall_mem_map.mpr fun x hx => barFree_markInside (hbar x hx)
    rw [spans_markIfSet _ hall, Translation.markInside_alternatives, spans_alternatives hbars,
      ← List.map_cons]
    simp only [List.mem_map, exists_exists_and_eq_and]
  · exact spans_alternatives hbar

end Wildcard.Regex
