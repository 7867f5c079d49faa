import Wildcard.Proofs.Regex.Spans
import Wildcard.Proofs.Regex.Spelling

/-!
# What a regex spans, item by item

Most regexes of patterns hold no bar at their own level (`Regex.BarFree`): bars stand within groups
only, between regexes without bars. For such regexes joining is composition (`spans_append`), a
group of alternatives spans what one of them spans (`spans_alternatives`), and each item has one
equation.

* `spans_of_sameRules`: a regex that does not ask for the beginning of the text spans the same in
  every text.
* `isFound_anchored`: a regex between the two ends of a text is found in it exactly if it spans all
  of it.
-/

namespace Wildcard.Regex

variable {t : Subject} {u v : List Char}

/-! ## 1. Regexes without a bar -/

/-- No bar stands at the regex's own level. -/
def BarFree : Regex → Prop
  | done => True
  | single _ _ rest => rest.BarFree
  | anchor _ rest => rest.BarFree
  | group _ _ _ rest => rest.BarFree
  | bar _ => False

theorem barFree_done : (done : Regex).BarFree := trivial

theorem barFree_chars (cs : List Char) : (chars cs).BarFree := by
  induction cs with
  | nil => trivial
  | cons c cs ih => exact ih

theorem BarFree.append {r s : Regex} (hr : r.BarFree) (hs : s.BarFree) : (r ++ s).BarFree := by
  induction r with
  | done => exact hs
  | single c q rest ih => exact ih hr
  | anchor a rest ih => exact ih hr
  | group k b q rest _ ih => exact ih hr
  | bar rest => exact absurd hr id

/-- What stands behind a regex without a bar decides about the later alternatives. -/
theorem spansBy_true_append {r : Regex} (hr : r.BarFree) (s : Regex) :
    (r ++ s).SpansBy t true u v ↔ s.SpansBy t true u v := by
  induction r with
  | done => exact Iff.rfl
  | single c q rest ih => exact ih hr
  | anchor a rest ih => exact ih hr
  | group k b q rest _ ih => exact ih hr
  | bar rest => exact absurd hr id

theorem spansBy_false_append {r : Regex} (hr : r.BarFree) (s : Regex) :
    (r ++ s).SpansBy t false u v ↔ ∃ w, r.SpansBy t false u w ∧ s.SpansBy t false w v := by
  induction r generalizing u with
  | done =>
    refine ⟨fun h => ⟨u, ⟨rfl, rfl⟩, h⟩, fun h => ?_⟩
    obtain ⟨w, ⟨_, rfl⟩, h⟩ := h
    exact h
  | single c q rest ih =>
    exact Iff.trans (exists_congr fun w => and_congr_right fun _ => ih hr) then_assoc
  | anchor a rest ih => exact Iff.trans (and_congr_right fun _ => ih hr) guarded_then
  | group k b q rest _ ih =>
    cases k with
    | plain => exact Iff.trans (exists_congr fun w => and_congr_right fun _ => ih hr) then_assoc
    | ahead => exact Iff.trans (and_congr_right fun _ => ih hr) guarded_then
    | notAhead => exact Iff.trans (and_congr_right fun _ => ih hr) guarded_then
  | bar rest => exact absurd hr id

theorem not_spansBy_true {r : Regex} (hr : r.BarFree) : ¬ r.SpansBy t true u v := by
  intro h
  rw [← append_done r, spansBy_true_append hr] at h
  exact absurd h.1 (by simp)

/-- Without a bar there is one alternative only. -/
theorem spans_iff_spansBy {r : Regex} (hr : r.BarFree) :
    r.Spans t u v ↔ r.SpansBy t false u v := by
  refine ⟨fun h => ?_, fun h => ⟨false, h⟩⟩
  obtain ⟨side, h⟩ := h
  cases side with
  | false => exact h
  | true => exact absurd h (not_spansBy_true hr)

/-! ## 2. Joining and choosing -/

@[simp] theorem spans_done : (done : Regex).Spans t u v ↔ u = v := by
  rw [spans_iff_spansBy barFree_done]
  exact and_iff_right rfl

/-- Joined regexes span one after the other. -/
theorem spans_append {r s : Regex} (hr : r.BarFree) (hs : s.BarFree) :
    (r ++ s).Spans t u v ↔ ∃ w, r.Spans t u w ∧ s.Spans t w v := by
  rw [spans_iff_spansBy (hr.append hs), spansBy_false_append hr]
  exact exists_congr fun w => by rw [spans_iff_spansBy hr, spans_iff_spansBy hs]

/-- A bar gives the choice between what stands before it and what stands behind it. -/
theorem spans_append_bar {r : Regex} (hr : r.BarFree) (s : Regex) :
    (r ++ bar s).Spans t u v ↔ r.Spans t u v ∨ s.Spans t u v := by
  constructor
  · intro ⟨side, h⟩
    cases side with
    | false =>
      obtain ⟨w, hw, rfl⟩ := (spansBy_false_append hr _).mp h
      exact .inl ⟨false, hw⟩
    | true => exact .inr ((spansBy_true_append hr _).mp h)
  · intro h
    rcases h with h | h
    · exact ⟨false, (spansBy_false_append hr _).mpr ⟨v, (spans_iff_spansBy hr).mp h, rfl⟩⟩
    · exact ⟨true, (spansBy_true_append hr _).mpr h⟩

/-- Alternatives span what one of them spans. -/
theorem spans_alternatives {r : Regex} {rs : List Regex} (h : ∀ x ∈ r :: rs, x.BarFree) :
    (alternatives r rs).Spans t u v ↔ ∃ x ∈ r :: rs, x.Spans t u v := by
  induction rs generalizing r with
  | nil => simp [alternatives]
  | cons s rs ih =>
    obtain ⟨hr, hrs⟩ := List.forall_mem_cons.mp h
    rw [alternatives, spans_append_bar hr, ih hrs]
    simp

/-! ## 3. Items -/

theorem spans_single {s : Single} {q : Quantifier} {rest : Regex} (h : rest.BarFree) :
    (single s q rest).Spans t u v ↔
      ∃ w, q.Spans (Reads (s.accepts t.rule t.dotAll)) u w ∧ rest.Spans t w v := by
  rw [spans_iff_spansBy (show (single s q rest).BarFree from h)]
  exact exists_congr fun w => by rw [spans_iff_spansBy h]

theorem spans_anchor {a : Anchor} {rest : Regex} (h : rest.BarFree) :
    (anchor a rest).Spans t u v ↔ a.HoldsBefore t u ∧ rest.Spans t u v := by
  rw [spans_iff_spansBy (show (anchor a rest).BarFree from h), spans_iff_spansBy h]
  exact Iff.rfl

theorem spans_group {body rest : Regex} {q : Quantifier} (h : rest.BarFree) :
    (group .plain body q rest).Spans t u v ↔
      ∃ w, q.Spans (body.Spans t) u w ∧ rest.Spans t w v := by
  rw [spans_iff_spansBy (show (group .plain body q rest).BarFree from h)]
  exact exists_congr fun w => and_congr Iff.rfl (spans_iff_spansBy h).symm

theorem spans_ahead {body rest : Regex} {q : Quantifier} (h : rest.BarFree) :
    (group .ahead body q rest).Spans t u v ↔ (∃ w, body.Spans t u w) ∧ rest.Spans t u v := by
  rw [spans_iff_spansBy (show (group .ahead body q rest).BarFree from h), spans_iff_spansBy h]
  exact and_congr exists_comm Iff.rfl

theorem spans_notAhead {body rest : Regex} {q : Quantifier} (h : rest.BarFree) :
    (group .notAhead body q rest).Spans t u v ↔
      (¬ ∃ w, body.Spans t u w) ∧ rest.Spans t u v := by
  rw [spans_iff_spansBy (show (group .notAhead body q rest).BarFree from h), spans_iff_spansBy h]
  exact and_congr (not_congr exists_comm) Iff.rfl

theorem spans_grouped {body : Regex} {q : Quantifier} :
    (grouped body q).Spans t u v ↔ q.Spans (body.Spans t) u v := by
  rw [grouped, spans_group barFree_done]
  simp

/-- Any number of steps over texts of one kind. -/
theorem repeated_flatMap {α : Type} {P : α → Prop} {f : α → List Char}
    {Q : List Char → List Char → Prop} (hQ : ∀ u v, Q u v ↔ ∃ a, P a ∧ u = f a ++ v) :
    Relation.ReflTransGen Q u v ↔ ∃ as : List α, (∀ a ∈ as, P a) ∧ u = as.flatMap f ++ v := by
  constructor
  · intro h
    induction h using Relation.ReflTransGen.head_induction_on with
    | refl => exact ⟨[], by simp, rfl⟩
    | head hs _ ih =>
      obtain ⟨a, ha, rfl⟩ := (hQ _ _).mp hs
      obtain ⟨as, has, rfl⟩ := ih
      exact ⟨a :: as, List.forall_mem_cons.mpr ⟨ha, has⟩, by simp⟩
  · intro ⟨as, has, hu⟩
    subst hu
    induction as with
    | nil => exact .refl
    | cons a as ih =>
      obtain ⟨ha, has⟩ := List.forall_mem_cons.mp has
      refine .head ((hQ _ _).mpr ⟨a, ha, ?_⟩) (ih has)
      rw [List.flatMap_cons, List.append_assoc]

/-- Any number of characters that pass a test. -/
theorem repeated_reads {p : Char → Bool} :
    Relation.ReflTransGen (Reads p) u v ↔ ∃ s, (∀ c ∈ s, p c = true) ∧ u = s ++ v := by
  have hsteps (u v : List Char) : Reads p u v ↔ ∃ c, p c = true ∧ u = [c] ++ v := Iff.rfl
  rw [repeated_flatMap hsteps]
  simp

/-! ## 4. Independence of the text -/

/-- The regex asks for the end of the text at most, never for its beginning or for a line. -/
def Unrooted : Regex → Prop
  | done => True
  | single _ _ rest => rest.Unrooted
  | anchor a rest => a = .stop ∧ rest.Unrooted
  | group _ body _ rest => body.Unrooted ∧ rest.Unrooted
  | bar rest => rest.Unrooted

theorem Unrooted.append {r s : Regex} (hr : r.Unrooted) (hs : s.Unrooted) :
    (r ++ s).Unrooted := by
  induction r with
  | done => exact hs
  | single c q rest ih => exact ih hr
  | anchor a rest ih => exact ⟨hr.1, ih hr.2⟩
  | group k b q rest _ ih => exact ⟨hr.1, ih hr.2⟩
  | bar rest ih => exact ih hr

/-- An unrooted regex spans the same in two texts for which its items accept the same. -/
theorem spansBy_congr {t t' : Subject} {r : Regex} (hr : r.Unrooted)
    (h : r.Each fun s => s.accepts t.rule t.dotAll = s.accepts t'.rule t'.dotAll) :
    r.SpansBy t = r.SpansBy t' := by
  induction r with
  | done => rfl
  | single s q rest ih =>
    funext later u v
    simp only [SpansBy, ih hr h.2, h.1]
  | anchor a rest ih =>
    obtain ⟨rfl, hr⟩ := hr
    funext later u v
    simp only [SpansBy, ih hr h, Anchor.HoldsBefore]
  | group k body q rest ihb ihr =>
    funext later u v
    simp only [SpansBy, ihb hr.1 h.1, ihr hr.2 h.2]
  | bar rest ih =>
    funext later u v
    simp only [SpansBy, ih hr h]

theorem spans_congr {t t' : Subject} {r : Regex} (hr : r.Unrooted)
    (h : r.Each fun s => s.accepts t.rule t.dotAll = s.accepts t'.rule t'.dotAll) :
    r.Spans t = r.Spans t' := by
  funext u v
  rw [Spans, Spans, spansBy_congr hr h]

/-- Two texts whose characters are compared by the same rules. -/
def SameRules (t t' : Subject) : Prop := t.rule = t'.rule ∧ t.dotAll = t'.dotAll

/-- An unrooted regex spans the same in every text. -/
theorem spans_of_sameRules {t t' : Subject} (h : SameRules t t') {r : Regex} (hr : r.Unrooted) :
    r.Spans t = r.Spans t' :=
  spans_congr hr (each_of_forall (fun s => by rw [h.1, h.2]) r)

/-! ## 5. Whole texts -/

/-- **A regex between the two ends of a text is found in it exactly if it spans all of it.** -/
theorem isFound_anchored {r : Regex} (hr : r.BarFree) :
    (anchor .start (r ++ anchor .stop done)).isFound t = true ↔ r.Spans t t.text [] := by
  have hstop : (anchor .stop done).BarFree := trivial
  rw [isFound_iff_spans]
  constructor
  · intro ⟨u, _, v, h⟩
    rw [spans_anchor (hr.append hstop), spans_append hr hstop] at h
    obtain ⟨rfl, w, hw, h⟩ := h
    rw [spans_anchor barFree_done] at h
    obtain ⟨rfl, _⟩ := h
    exact hw
  · intro h
    refine ⟨t.text, List.suffix_refl _, [], ?_⟩
    rw [spans_anchor (hr.append hstop), spans_append hr hstop]
    refine ⟨rfl, [], h, ?_⟩
    rw [spans_anchor barFree_done]
    exact ⟨rfl, by simp⟩

end Wildcard.Regex
