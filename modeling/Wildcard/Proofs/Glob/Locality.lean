import Wildcard.Proofs.Glob.Translation
import Wildcard.Proofs.Regex.Caseless

/-!
# Regexes that stay in their segment

A translation whose items match no separator reads on within one segment of a candidate, and what
it does there does not hang on what comes behind the segment: it cannot tell the separator at the
end of a segment from the end of the text (`local_spans`). That holds for guards and negated groups
as well, although they look ahead.
-/

namespace Wildcard.Regex

variable {Q R : List Char → List Char → Prop} {a b u v w w' : List Char}

/-! ## 1. Local relations -/

/-- What is left where a segment ends: nothing, or a separator first. -/
def Edge (w : List Char) : Prop := w = [] ∨ w.head? = some '/'

/-- A relation of rests that reads on within a segment and does not see past its end. -/
structure Local (Q : List Char → List Char → Prop) : Prop where
  within : ∀ u v, Q u v → ∃ x, '/' ∉ x ∧ u = x ++ v
  moved : ∀ a b w w', '/' ∉ a → Edge w → Edge w' → Q (a ++ w) (b ++ w) → Q (a ++ w') (b ++ w')

/-- What is read from within a segment leaves a part of the segment. -/
theorem exists_rest (hw : Edge w) {x : List Char} (hx : '/' ∉ x)
    (h : a ++ w = x ++ v) : ∃ b, v = b ++ w ∧ a = x ++ b := by
  rcases List.append_eq_append_iff.mp h with ⟨y, hxy, hwv⟩ | ⟨b, hab, hvb⟩
  · -- the end of the segment is not read over
    cases y with
    | nil => exact ⟨[], hwv.symm, by rw [hxy, List.append_nil, List.append_nil]⟩
    | cons c y =>
      refine absurd ?_ hx
      rcases hw with rfl | hw
      · cases hwv
      · rw [hwv] at hw
        rw [hxy, Option.some.inj hw]
        simp
  · exact ⟨b, hvb, hab⟩

theorem Local.rest (h : Local Q) (ha : '/' ∉ a) (hw : Edge w) (hQ : Q (a ++ w) v) :
    ∃ b, v = b ++ w ∧ '/' ∉ b := by
  obtain ⟨x, hx, hxv⟩ := h.within _ _ hQ
  obtain ⟨b, hv, hab⟩ := exists_rest hw hx hxv
  refine ⟨b, hv, fun hb => ha ?_⟩
  rw [hab]
  exact List.mem_append_right x hb

theorem local_eq : Local fun u v => u = v where
  within u v h := ⟨[], by simp, by simp [h]⟩
  moved a b w w' _ _ _ h := by rw [List.append_cancel_right h]

theorem Local.then (h : Local Q) (h' : Local R) : Local fun u v => ∃ m, Q u m ∧ R m v where
  within := by
    intro u v ⟨m, hm, hv⟩
    obtain ⟨x, hx, rfl⟩ := h.within u m hm
    obtain ⟨y, hy, rfl⟩ := h'.within m v hv
    exact ⟨x ++ y, by simp [hx, hy], by simp⟩
  moved := by
    intro a b w w' ha hw hw' ⟨m, hm, hv⟩
    obtain ⟨c, rfl, hc⟩ := h.rest ha hw hm
    exact ⟨c ++ w', h.moved a c w w' ha hw hw' hm, h'.moved c b w w' hc hw hw' hv⟩

theorem Local.or (h : Local Q) (h' : Local R) : Local fun u v => Q u v ∨ R u v where
  within u v hs := hs.elim (h.within u v) (h'.within u v)
  moved a b w w' ha hw hw' hs :=
    hs.imp (h.moved a b w w' ha hw hw') (h'.moved a b w w' ha hw hw')

theorem Local.repeated (h : Local Q) : Local (Relation.ReflTransGen Q) where
  within := by
    intro u v hs
    induction hs using Relation.ReflTransGen.head_induction_on with
    | refl => exact ⟨[], by simp, rfl⟩
    | head hs _ ih =>
      obtain ⟨x, hx, rfl⟩ := h.within _ _ hs
      obtain ⟨y, hy, rfl⟩ := ih
      exact ⟨x ++ y, by simp [hx, hy], by simp⟩
  moved := by
    intro a b w w' ha hw hw' hs
    generalize hu : a ++ w = u at hs
    induction hs using Relation.ReflTransGen.head_induction_on generalizing a with
    | refl =>
      rw [List.append_cancel_right hu]
    | head hs _ ih =>
      subst hu
      obtain ⟨c, rfl, hc⟩ := h.rest ha hw hs
      exact .head (h.moved a c w w' ha hw hw' hs) (ih c hc rfl)

theorem Local.quantifier (h : Local Q) (q : Quantifier) : Local (q.Spans Q) := by
  cases q with
  | once => exact h
  | optional => exact local_eq.or h
  | plus => exact h.then h.repeated
  | star => exact h.repeated
  | lazyStar => exact h.repeated

theorem local_reads {p : Char → Bool} (hp : p '/' = false) : Local (Reads p) where
  within := by
    intro u v ⟨c, hc, hu⟩
    refine ⟨[c], ?_, hu⟩
    intro hmem
    rw [List.mem_singleton.mp hmem, hc] at hp
    cases hp
  moved := by
    intro a b w w' ha hw _ ⟨c, hc, h⟩
    cases a with
    | nil =>
      -- nothing is left of the segment, and its end passes no test
      refine absurd hc ?_
      rcases hw with rfl | hw
      · cases h
      · rw [List.nil_append] at h
        rw [h] at hw
        rw [Option.some.inj hw, hp]
        exact Bool.false_ne_true
    | cons d a =>
      obtain ⟨rfl, hrest⟩ := List.cons.inj h
      rw [List.append_cancel_right hrest]
      exact ⟨d, hc, rfl⟩

/-- Whether a local relation leads on does not hang on what comes behind the segment. -/
theorem Local.leadsOn (h : Local Q) (ha : '/' ∉ a) (hw : Edge w) (hw' : Edge w') :
    (∃ v, Q (a ++ w) v) ↔ ∃ v, Q (a ++ w') v := by
  have transfer {w w' : List Char} (hw : Edge w) (hw' : Edge w') :
      (∃ v, Q (a ++ w) v) → ∃ v, Q (a ++ w') v := by
    intro ⟨v, hv⟩
    obtain ⟨b, rfl, _⟩ := h.rest ha hw hv
    exact ⟨b ++ w', h.moved a b w w' ha hw hw' hv⟩
  exact ⟨transfer hw hw', transfer hw' hw⟩

/-- Whether a local relation leads to the end of the segment does not hang on it either. -/
theorem Local.leadsToEdge (h : Local Q) (ha : '/' ∉ a) (hw : Edge w) (hw' : Edge w') :
    (∃ v, Q (a ++ w) v ∧ Edge v) ↔ ∃ v, Q (a ++ w') v ∧ Edge v := by
  have transfer {w w' : List Char} (hw : Edge w) (hw' : Edge w') :
      (∃ v, Q (a ++ w) v ∧ Edge v) → ∃ v, Q (a ++ w') v ∧ Edge v := by
    intro ⟨v, hv, hedge⟩
    obtain ⟨b, rfl, hb⟩ := h.rest ha hw hv
    refine ⟨b ++ w', h.moved a b w w' ha hw hw' hv, ?_⟩
    cases b with
    | nil => exact hw'
    | cons c b =>
      rcases hedge with hnil | hhead
      · cases hnil
      · rw [Option.some.inj hhead] at hb
        exact absurd List.mem_cons_self hb
  exact ⟨transfer hw hw', transfer hw' hw⟩

/-- A test of what comes next, in front of a local relation. -/
theorem Local.guarded (h : Local Q) {test : List Char → Prop}
    (ht : ∀ a w w', '/' ∉ a → Edge w → Edge w' → (test (a ++ w) ↔ test (a ++ w'))) :
    Local fun u v => test u ∧ Q u v where
  within u v hs := h.within u v hs.2
  moved a b w w' ha hw hw' hs :=
    ⟨(ht a w w' ha hw hw').mp hs.1, h.moved a b w w' ha hw hw' hs.2⟩

theorem Local.congr (h : Local Q) (hQR : ∀ u v, R u v ↔ Q u v) : Local R where
  within u v hs := h.within u v ((hQR u v).mp hs)
  moved a b w w' ha hw hw' hs :=
    (hQR _ _).mpr (h.moved a b w w' ha hw hw' ((hQR _ _).mp hs))

theorem local_exists {ι : Type} {Q : ι → List Char → List Char → Prop} {p : ι → Prop}
    (h : ∀ i, p i → Local (Q i)) : Local fun u v => ∃ i, p i ∧ Q i u v where
  within := by
    intro u v ⟨i, hi, hs⟩
    exact (h i hi).within u v hs
  moved := by
    intro a b w w' ha hw hw' ⟨i, hi, hs⟩
    exact ⟨i, hi, (h i hi).moved a b w w' ha hw hw' hs⟩

/-! ## 2. Translations are local -/

variable {t : Subject}

/-- The item matches no separator. -/
def Single.Stays (s : Single) : Prop := s.accepts .exact false '/' = false

instance (s : Single) : Decidable s.Stays :=
  inferInstanceAs (Decidable (s.accepts .exact false '/' = false))

theorem stays_marked (s : Single) (h : s.Stays) : s.marked.Stays := by
  rw [Single.Stays, Single.accepts_marked]
  exact h

theorem Single.Stays.accepts {s : Single} (h : s.Stays) (rule : CaseRule) (dotAll : Bool) :
    s.accepts rule dotAll '/' = false :=
  (accepts_caseless caseless_separator (by decide) rule dotAll s).trans h

theorem accepts_separator (rule : CaseRule) (dotAll : Bool) (c : Char) :
    (Single.literal (.escaped '/')).accepts rule dotAll c = (c == '/') :=
  acceptsChar_eq_beq caseless_separator rule c

/-- Whether a character is a separator is seen under all flags. -/
theorem accepts_notSeparator (rule : CaseRule) (dotAll : Bool) (c : Char) :
    Single.notSeparator.accepts rule dotAll c = (c != '/') := by
  have h : isListed rule (Member.ofLiterals [.bare '/']) c = acceptsChar rule '/' c := rfl
  rw [Single.notSeparator, Single.accepts, h, acceptsChar_eq_beq caseless_separator]
  show ((c == '/') != true) = !(c == '/')
  cases c == '/' <;> rfl

theorem spans_separator {rest : Regex} (h : rest.BarFree) :
    (separator rest).Spans t u v ↔ ∃ w, u = '/' :: w ∧ rest.Spans t w v := by
  rw [separator, spans_single h]
  constructor
  · intro ⟨w, ⟨c, hc, hu⟩, hw⟩
    rw [accepts_separator, beq_iff_eq] at hc
    exact ⟨w, by rw [hu, hc], hw⟩
  · intro ⟨w, hu, hw⟩
    exact ⟨w, ⟨'/', by rw [accepts_separator, beq_self_eq_true], hu⟩, hw⟩

theorem leadsOn_segmentEnd : (∃ v, segmentEnd.Spans t u v) ↔ Edge u := by
  have hstop : (anchor .stop done).BarFree := trivial
  have halternatives : separator (bar (anchor .stop done)) =
      separator done ++ bar (anchor .stop done) := rfl
  simp only [segmentEnd, spans_grouped, halternatives, Quantifier.Spans]
  constructor
  · intro ⟨v, h⟩
    rw [spans_append_bar (r := separator done) barFree_done, spans_separator barFree_done,
      spans_anchor barFree_done] at h
    rcases h with ⟨w, rfl, _⟩ | ⟨hstop, _⟩
    · exact .inr rfl
    · exact .inl hstop
  · intro h
    rcases h with rfl | h
    · refine ⟨[], ?_⟩
      rw [spans_append_bar (r := separator done) barFree_done, spans_anchor barFree_done]
      exact .inr ⟨rfl, spans_done.mpr rfl⟩
    · cases u with
      | nil => cases h
      | cons c u =>
        cases h
        refine ⟨u, ?_⟩
        rw [spans_append_bar (r := separator done) barFree_done, spans_separator barFree_done]
        exact .inl ⟨u, rfl, spans_done.mpr rfl⟩

/-- **A negated group** reads what reaches to the end of the segment, unless its contents and what
    follows them do. -/
theorem spans_exceptFor {body tail rest : Regex} (htail : tail.BarFree) (hrest : rest.BarFree) :
    (exceptFor body tail rest).Spans t u v ↔
      ∃ m, ((¬ ∃ k, (∃ i, body.Spans t u i ∧ tail.Spans t i k) ∧ Edge k) ∧
        (single .notSeparator .lazyStar done).Spans t u m) ∧ rest.Spans t m v := by
  have hend : (tail ++ segmentEnd).BarFree := htail.append barFree_done
  have hlast : (single .notSeparator .lazyStar done).BarFree := barFree_done
  have hahead : (∃ k, (group .plain body .once (tail ++ segmentEnd)).Spans t u k) ↔
      ∃ k, (∃ i, body.Spans t u i ∧ tail.Spans t i k) ∧ Edge k := by
    simp only [spans_group hend, spans_append htail (s := segmentEnd) barFree_done,
      Quantifier.Spans, ← leadsOn_segmentEnd (t := t)]
    constructor
    · intro ⟨v, i, hi, k, hk, hv⟩
      exact ⟨k, ⟨i, hi, hk⟩, v, hv⟩
    · intro ⟨k, ⟨i, hi, hk⟩, v, hv⟩
      exact ⟨v, i, hi, k, hk, hv⟩
  rw [exceptFor, spans_group hrest]
  refine exists_congr fun m => and_congr_left fun _ => ?_
  rw [Quantifier.Spans, spans_notAhead hlast, hahead]

theorem local_alternatives {first : Regex} {others : List Regex}
    (hbar : ∀ x ∈ first :: others, x.BarFree) (h : ∀ x ∈ first :: others, Local (x.Spans t)) :
    Local ((alternatives first others).Spans t) :=
  (local_exists h).congr fun _ _ => spans_alternatives hbar

theorem local_done : Local ((done : Regex).Spans t) := local_eq.congr fun _ _ => spans_done

theorem local_single {s : Single} (hs : s.Stays) (q : Quantifier) {rest : Regex}
    (hrest : rest.BarFree) (h : Local (rest.Spans t)) : Local ((single s q rest).Spans t) :=
  (((local_reads (hs.accepts t.rule t.dotAll)).quantifier q).then h).congr fun _ _ =>
    spans_single hrest

/-- **A translation whose items match no separator is local.** -/
theorem local_spans {L : Prop} {r : Regex} (h : Translation Single.Stays L r) :
    Local (r.Spans t) := by
  have hwild : Single.notSeparator.Stays := rfl
  have bars {l : List Regex} (h : ∀ x ∈ l, Translation Single.Stays L x) : ∀ x ∈ l, x.BarFree :=
    fun x hx => (h x hx).barFree
  induction h with
  | done => exact local_done
  | single hs hrest ih => exact local_single hs _ hrest.barFree ih
  | group hall hrest ihs ih =>
    exact (((local_alternatives (bars hall) ihs).quantifier _).then ih).congr fun _ _ =>
      spans_group hrest.barFree
  | @notDot s rest hs _ hrest ih =>
    have hread : Local ((single s .once done).Spans t) := local_single hs _ barFree_done local_done
    refine (ih.guarded fun a w w' ha hw hw' => ?_).congr fun _ _ => spans_notAhead hrest.barFree
    exact not_congr (hread.leadsOn ha hw hw')
  | ahead _ hall hrest ihs ih =>
    have hbody := local_alternatives (bars hall) ihs
    exact (ih.guarded fun a w w' ha hw hw' => hbody.leadsOn ha hw hw').congr fun _ _ =>
      spans_ahead hrest.barFree
  | @except first others tail rest _ _ hall htail hrest ihs iht ih =>
    have hbody := (local_alternatives (bars hall) ihs).then iht
    have hlazy : Local ((single .notSeparator .lazyStar done).Spans t) :=
      local_single hwild _ barFree_done local_done
    have hexcept : Local fun u v =>
        (¬ ∃ m, (∃ k, (alternatives first others).Spans t u k ∧ tail.Spans t k m) ∧ Edge m) ∧
          (single .notSeparator .lazyStar done).Spans t u v :=
      hlazy.guarded fun a w w' ha hw hw' => not_congr (hbody.leadsToEdge ha hw hw')
    exact (hexcept.then ih).congr fun _ _ => spans_exceptFor htail.barFree hrest.barFree

end Wildcard.Regex
