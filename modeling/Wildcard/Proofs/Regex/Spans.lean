import Mathlib.Logic.Relation
import Wildcard.Proofs.Regex.Reach

/-!
# Regexes between the ends of a text

`Regex.Leads` speaks of places by number. Here a place is what is left of the text from there on,
and a regex spans from one rest to a later one (`Regex.Spans`). So nothing refers to the text as a
whole but the anchors at its beginning, and a fact about one stretch of characters holds wherever
that stretch stands (`spans_congr`).

* `isFound_iff_spans`: a regex is found in a text exactly if it spans from some rest of it.
* `spans_append`, `spans_single`, `spans_group`, `spans_alternatives`, …: what a regex spans, item
  by item, for regexes without a bar at their own level.
-/

namespace Wildcard.Regex

/-! ## 1. The relation of rests -/

/-- One character that passes a test is read. -/
def Reads (p : Char → Bool) (u v : List Char) : Prop := ∃ c, p c = true ∧ u = c :: v

/-- A relation, such as one of rests, under a quantifier. -/
def Quantifier.Spans {α : Type} (R : α → α → Prop) : Quantifier → α → α → Prop
  | .once, u, v => R u v
  | .optional, u, v => u = v ∨ R u v
  | .plus, u, v => ∃ w, R u w ∧ Relation.ReflTransGen R w v
  | .star, u, v | .lazyStar, u, v => Relation.ReflTransGen R u v

/-- Where an anchor holds, by what is left of the text. -/
def Anchor.HoldsBefore (t : Subject) : Anchor → List Char → Prop
  | start, u => u = t.text
  | stop, u => u = []
  | lineStart, u => u = t.text ∨ (t.multiline = true ∧ ∃ before, t.text = before ++ '\n' :: u)
  | lineStop, u => u = [] ∨ u = ['\n'] ∨ (t.multiline = true ∧ u.head? = some '\n')

/-- What a regex spans, in two parts: with `false` by its first alternative, with `true` by one of
    the later ones. -/
def SpansBy (t : Subject) : Regex → Bool → List Char → List Char → Prop
  | done, later, u, v => later = false ∧ u = v
  | single s q rest, later, u, v =>
    if later then rest.SpansBy t true u v
    else ∃ w, q.Spans (Reads (s.accepts t.rule t.dotAll)) u w ∧ rest.SpansBy t false w v
  | anchor a rest, later, u, v =>
    if later then rest.SpansBy t true u v else a.HoldsBefore t u ∧ rest.SpansBy t false u v
  | group k body q rest, later, u, v =>
    if later then rest.SpansBy t true u v
    else match k with
      | .plain => ∃ w, q.Spans (fun a b => ∃ side, body.SpansBy t side a b) u w ∧
          rest.SpansBy t false w v
      | .ahead => (∃ side w, body.SpansBy t side u w) ∧ rest.SpansBy t false u v
      | .notAhead => (¬ ∃ side w, body.SpansBy t side u w) ∧ rest.SpansBy t false u v
  | bar rest, later, u, v => if later then ∃ side, rest.SpansBy t side u v else u = v

/-- The regex spans from one rest of the text to a later one. -/
def Spans (t : Subject) (r : Regex) (u v : List Char) : Prop := ∃ side, r.SpansBy t side u v

/-! ## 2. Places and rests -/

/-- A relation of rests reads on: it leads from a rest to a later one. -/
def ReadsOn (Q : List Char → List Char → Prop) : Prop := ∀ u v, Q u v → v <:+ u

/-- A relation of places and one of rests say the same of a text. -/
structure Mirrors (t : Subject) (R : Nat → Nat → Prop) (Q : List Char → List Char → Prop) :
    Prop where
  forward : Forward t.places R
  readsOn : ReadsOn Q
  same : ∀ i j, i < t.places → j < t.places → (R i j ↔ Q (t.text.drop i) (t.text.drop j))

/-- A rest of a text is what is left from some place on. -/
theorem exists_place {t : Subject} {u : List Char} (h : u <:+ t.text) :
    ∃ k < t.places, u = t.text.drop k := by
  obtain ⟨before, hb⟩ := h
  refine ⟨before.length, ?_, by rw [← hb, List.drop_left]⟩
  rw [Subject.places, ← hb, List.length_append]
  omega

theorem drop_suffix_text (t : Subject) (i : Nat) : t.text.drop i <:+ t.text :=
  List.drop_suffix i t.text

/-- Different places leave different rests. -/
theorem drop_injective {t : Subject} {i j : Nat} (hi : i < t.places) (hj : j < t.places)
    (h : t.text.drop i = t.text.drop j) : i = j := by
  have := congrArg List.length h
  rw [List.length_drop, List.length_drop] at this
  unfold Subject.places at hi hj
  omega

theorem readsOn_then {P Q : List Char → List Char → Prop} (hP : ReadsOn P) (hQ : ReadsOn Q) :
    ReadsOn fun u v => ∃ w, P u w ∧ Q w v :=
  fun u v ⟨w, hu, hv⟩ => (hQ w v hv).trans (hP u w hu)

theorem readsOn_repeated {Q : List Char → List Char → Prop} (hQ : ReadsOn Q) :
    ReadsOn (Relation.ReflTransGen Q) := by
  intro u v h
  induction h with
  | refl => exact List.suffix_refl u
  | tail _ hs ih => exact (hQ _ _ hs).trans ih

theorem readsOn_quantifier {Q : List Char → List Char → Prop} (hQ : ReadsOn Q) (q : Quantifier) :
    ReadsOn (q.Spans Q) := by
  cases q with
  | once => exact hQ
  | optional =>
    intro u v h
    rcases h with rfl | h
    · exact List.suffix_refl u
    · exact hQ u v h
  | plus => exact readsOn_then hQ (readsOn_repeated hQ)
  | star => exact readsOn_repeated hQ
  | lazyStar => exact readsOn_repeated hQ

theorem readsOn_reads (p : Char → Bool) : ReadsOn (Reads p) := by
  intro u v h
  rcases h with ⟨c, _, rfl⟩
  exact List.suffix_cons c v

theorem Mirrors.then {t : Subject} {R S : Nat → Nat → Prop} {P Q : List Char → List Char → Prop}
    (h : Mirrors t R P) (h' : Mirrors t S Q) :
    Mirrors t (Then R S) (fun u v => ∃ w, P u w ∧ Q w v) where
  forward := by
    intro i j hi h
    rcases h with ⟨k, hik, hkj⟩
    obtain ⟨h1, h2⟩ := h.forward i k hi hik
    obtain ⟨h3, h4⟩ := h'.forward k j h2 hkj
    exact ⟨Nat.le_trans h1 h3, h4⟩
  readsOn := readsOn_then h.readsOn h'.readsOn
  same := by
    intro i j hi hj
    constructor
    · intro h
      rcases h with ⟨k, hik, hkj⟩
      have hk := (h.forward i k hi hik).2
      exact ⟨t.text.drop k, (h.same i k hi hk).mp hik, (h'.same k j hk hj).mp hkj⟩
    · intro h
      rcases h with ⟨w, hw, hv⟩
      obtain ⟨k, hk, rfl⟩ := exists_place ((h.readsOn _ _ hw).trans (drop_suffix_text t i))
      exact ⟨k, (h.same i k hi hk).mpr hw, (h'.same k j hk hj).mpr hv⟩

theorem Mirrors.repeated {t : Subject} {R : Nat → Nat → Prop} {Q : List Char → List Char → Prop}
    (h : Mirrors t R Q) : Mirrors t (Repeated R) (Relation.ReflTransGen Q) where
  forward := repeated_forward h.forward
  readsOn := readsOn_repeated h.readsOn
  same := by
    intro i j hi hj
    constructor
    · intro hr
      induction hr with
      | refl i => exact .refl
      | @head i k j hik _ ih =>
        have hk := (h.forward i k hi hik).2
        exact .head ((h.same i k hi hk).mp hik) (ih hk hj)
    · intro hr
      generalize hu : t.text.drop i = u at hr
      induction hr using Relation.ReflTransGen.head_induction_on generalizing i with
      | refl =>
        rw [drop_injective hi hj hu]
        exact .refl j
      | head hs _ ih =>
        subst hu
        obtain ⟨k, hk, rfl⟩ := exists_place ((h.readsOn _ _ hs).trans (drop_suffix_text t i))
        exact .head ((h.same i k hi hk).mpr hs) (ih k hk rfl)

theorem Mirrors.quantifier {t : Subject} {R : Nat → Nat → Prop}
    {Q : List Char → List Char → Prop} (h : Mirrors t R Q) (q : Quantifier) :
    Mirrors t (q.Leads R) (q.Spans Q) := by
  cases q with
  | once => exact h
  | optional =>
    refine ⟨quantifier_forward h.forward .optional, readsOn_quantifier h.readsOn .optional, ?_⟩
    intro i j hi hj
    refine or_congr ⟨fun e => by rw [e], fun e => drop_injective hi hj e⟩ (h.same i j hi hj)
  | plus => exact h.then h.repeated
  | star => exact h.repeated
  | lazyStar => exact h.repeated

theorem mirrors_step (t : Subject) (p : Char → Bool) : Mirrors t (Step t p) (Reads p) where
  forward := step_forward t p
  readsOn := readsOn_reads p
  same := by
    intro i j hi hj
    constructor
    · intro h
      rcases h with ⟨rfl, c, hc, hp⟩
      obtain ⟨hlt, rfl⟩ := List.getElem?_eq_some_iff.mp hc
      exact ⟨_, hp, List.drop_eq_getElem_cons hlt⟩
    · intro h
      rcases h with ⟨c, hp, hc⟩
      have hlt : i < t.text.length := by
        by_contra hge
        rw [List.drop_eq_nil_of_le (by omega)] at hc
        cases hc
      rw [List.drop_eq_getElem_cons hlt] at hc
      obtain ⟨rfl, hrest⟩ := List.cons.inj hc
      refine ⟨?_, t.text[i], List.getElem?_eq_getElem hlt, hp⟩
      exact (drop_injective (by unfold Subject.places; omega) hj hrest).symm

/-- An anchor holds at a place if it holds before what is left there. -/
theorem anchor_holds_iff (t : Subject) (a : Anchor) (i : Nat) (hi : i < t.places) :
    a.Holds t i ↔ a.HoldsBefore t (t.text.drop i) := by
  have hle : i ≤ t.text.length := Nat.lt_succ_iff.mp hi
  have hstart : i = 0 ↔ t.text.drop i = t.text := by
    refine ⟨fun e => by rw [e, List.drop_zero], fun e => ?_⟩
    exact drop_injective hi (by unfold Subject.places; omega) (by rw [e, List.drop_zero])
  have hstop : i = t.text.length ↔ t.text.drop i = [] := by
    rw [List.drop_eq_nil_iff]
    omega
  cases a with
  | start => exact hstart
  | stop => exact hstop
  | lineStart =>
    by_cases h0 : i = 0
    · subst h0
      simp [Anchor.Holds, Anchor.HoldsBefore]
    · refine or_congr hstart (and_congr_right fun _ => ⟨fun h => ?_, ?_⟩)
      · obtain ⟨hlt, hc⟩ := List.getElem?_eq_some_iff.mp h
        refine ⟨t.text.take (i - 1), ?_⟩
        have hd := List.drop_eq_getElem_cons hlt
        rw [hc, Nat.sub_add_cancel (by omega)] at hd
        rw [← hd, List.take_append_drop]
      · intro h
        rcases h with ⟨before, hb⟩
        have hlen := congrArg List.length hb
        rw [List.length_append, List.length_cons, List.length_drop] at hlen
        rw [hb, List.getElem?_append_right (by omega), show i - 1 - before.length = 0 by omega]
        rfl
  | lineStop =>
    refine or_congr hstop (or_congr Iff.rfl (and_congr_right fun _ => ?_))
    rw [List.head?_drop]

/-- **The relation of places and that of rests say the same.** -/
theorem mirrors_leadsBy (t : Subject) (r : Regex) (side : Bool) :
    Mirrors t (r.LeadsBy t side) (r.SpansBy t side) := by
  induction r generalizing side with
  | done =>
    refine ⟨leadsBy_forward t done side, ?_, ?_⟩
    · intro u v h
      rcases h with ⟨_, rfl⟩
      exact List.suffix_refl u
    · intro i j hi hj
      exact and_congr_right fun _ => ⟨fun e => by rw [e], fun e => drop_injective hi hj e⟩
  | single s q rest ih =>
    cases side with
    | true => exact ih true
    | false => exact ((mirrors_step t _).quantifier q).then (ih false)
  | anchor a rest ih =>
    cases side with
    | true => exact ih true
    | false =>
      refine ⟨leadsBy_forward t (anchor a rest) false, fun u v h => (ih false).readsOn u v h.2, ?_⟩
      intro i j hi hj
      exact and_congr (anchor_holds_iff t a i hi) ((ih false).same i j hi hj)
  | group k body q rest ihb ihr =>
    have hbody : Mirrors t (fun a b => ∃ side, body.LeadsBy t side a b)
        (fun a b => ∃ side, body.SpansBy t side a b) :=
      ⟨fun a b ha ⟨side, hab⟩ => leadsBy_forward t body side a b ha hab,
        fun u v ⟨side, huv⟩ => (ihb side).readsOn u v huv,
        fun i j hi hj => exists_congr fun side => (ihb side).same i j hi hj⟩
    have hahead (i : Nat) (hi : i < t.places) :
        (∃ side m, body.LeadsBy t side i m) ↔ ∃ side w, body.SpansBy t side (t.text.drop i) w := by
      constructor
      · intro h
        rcases h with ⟨side, m, hm⟩
        have hm' := (leadsBy_forward t body side i m hi hm).2
        exact ⟨side, t.text.drop m, ((ihb side).same i m hi hm').mp hm⟩
      · intro h
        rcases h with ⟨side, w, hw⟩
        obtain ⟨m, hm, rfl⟩ :=
          exists_place (((ihb side).readsOn _ _ hw).trans (drop_suffix_text t i))
        exact ⟨side, m, ((ihb side).same i m hi hm).mpr hw⟩
    cases side with
    | true => exact ihr true
    | false =>
      cases k with
      | plain => exact (hbody.quantifier q).then (ihr false)
      | ahead =>
        refine ⟨leadsBy_forward t (group .ahead body q rest) false,
          fun u v h => (ihr false).readsOn u v h.2, ?_⟩
        intro i j hi hj
        exact and_congr (hahead i hi) ((ihr false).same i j hi hj)
      | notAhead =>
        refine ⟨leadsBy_forward t (group .notAhead body q rest) false,
          fun u v h => (ihr false).readsOn u v h.2, ?_⟩
        intro i j hi hj
        exact and_congr (not_congr (hahead i hi)) ((ihr false).same i j hi hj)
  | bar rest ih =>
    cases side with
    | true =>
      exact ⟨leadsBy_forward t (bar rest) true, fun u v ⟨side, h⟩ => (ih side).readsOn u v h,
        fun i j hi hj => exists_congr fun side => (ih side).same i j hi hj⟩
    | false =>
      refine ⟨leadsBy_forward t (bar rest) false, ?_, ?_⟩
      · rintro u v rfl
        exact List.suffix_refl u
      · intro i j hi hj
        exact ⟨fun (e : i = j) => congrArg t.text.drop e, fun e => drop_injective hi hj e⟩

/-- **A regex is found in a text exactly if it spans from some rest of it.** -/
theorem isFound_iff_spans (t : Subject) (r : Regex) :
    r.isFound t = true ↔ ∃ u, u <:+ t.text ∧ ∃ v, r.Spans t u v := by
  rw [isFound_iff]
  constructor
  · intro h
    rcases h with ⟨i, hi, j, side, h⟩
    have hj := (leadsBy_forward t r side i j hi h).2
    exact ⟨t.text.drop i, drop_suffix_text t i, t.text.drop j, side,
      ((mirrors_leadsBy t r side).same i j hi hj).mp h⟩
  · intro h
    rcases h with ⟨u, hu, v, side, h⟩
    have hv := (mirrors_leadsBy t r side).readsOn u v h
    obtain ⟨i, hi, rfl⟩ := exists_place hu
    obtain ⟨j, hj, rfl⟩ := exists_place (hv.trans hu)
    exact ⟨i, hi, j, side, ((mirrors_leadsBy t r side).same i j hi hj).mpr h⟩

end Wildcard.Regex
