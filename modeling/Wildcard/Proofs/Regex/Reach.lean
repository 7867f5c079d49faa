import Mathlib.Data.Nat.Bitwise
import Wildcard.Regex.Matching

/-!
# The tables of a regex hold its relation of places

`Regex.run` computes with rows of bits; `Regex.LeadsBy` says what a regex relates. `Holds` ties the
two: a table holds a relation if the bits of row `i` are the places related to `i`. Each operation
on tables is an operation on relations (`Holds.union`, `Holds.compose`, `Holds.closure`,
`Holds.keep`, `holds_consume`), so a run holds what its regex relates (`run_holds`).

* `testBit_reach`: the bits that `reach` gives are the places to which the regex leads.
* `isFound_iff`: a regex is found in a text exactly if it leads from some place to some other one.
-/

namespace Wildcard.Regex

/-! ## 1. Tables and relations -/

/-- A table of `n` rows holds a relation: the bits of row `i` are the places related to `i`. -/
def Holds (n : Nat) (table : List Row) (R : Nat → Nat → Prop) : Prop :=
  table.length = n ∧ ∀ i < n, ∀ j, (table.getD i 0).testBit j = true ↔ R i j

/-- First one relation, then another. -/
def Then (R S : Nat → Nat → Prop) (i j : Nat) : Prop := ∃ k, R i k ∧ S k j

section Then

variable {α : Type} {P Q R : α → α → Prop} {a d : α}

theorem then_assoc :
    (∃ b, P a b ∧ ∃ c, Q b c ∧ R c d) ↔ ∃ c, (∃ b, P a b ∧ Q b c) ∧ R c d := by
  constructor
  · intro h
    rcases h with ⟨b, hab, c, hbc, hcd⟩
    exact ⟨c, ⟨b, hab, hbc⟩, hcd⟩
  · intro h
    rcases h with ⟨c, ⟨b, hab, hbc⟩, hcd⟩
    exact ⟨b, hab, c, hbc, hcd⟩

/-- What must hold at the beginning can be asked of the first step. -/
theorem guarded_then {p : Prop} : (p ∧ ∃ b, Q a b ∧ R b d) ↔ ∃ b, (p ∧ Q a b) ∧ R b d := by
  constructor
  · intro h
    rcases h with ⟨hp, b, hab, hbd⟩
    exact ⟨b, ⟨hp, hab⟩, hbd⟩
  · intro h
    rcases h with ⟨b, ⟨hp, hab⟩, hbd⟩
    exact ⟨hp, b, hab, hbd⟩

/-- The first alternative and the later ones together are all of them. -/
theorem sides_then {S : Bool → α → α → Prop} :
    ((∃ b, S false a b ∧ R b d) ∨ ∃ b, S true a b ∧ R b d) ↔
      ∃ b, (∃ side, S side a b) ∧ R b d := by
  constructor
  · intro h
    rcases h with ⟨b, hab, hbd⟩ | ⟨b, hab, hbd⟩
    · exact ⟨b, ⟨false, hab⟩, hbd⟩
    · exact ⟨b, ⟨true, hab⟩, hbd⟩
  · intro h
    rcases h with ⟨b, ⟨side, hab⟩, hbd⟩
    cases side with
    | false => exact .inl ⟨b, hab, hbd⟩
    | true => exact .inr ⟨b, hab, hbd⟩

end Then

/-- From a place before `n` a relation leads only forward, to a place before `n`. -/
def Forward (n : Nat) (R : Nat → Nat → Prop) : Prop := ∀ i j, i < n → R i j → i ≤ j ∧ j < n

theorem Holds.congr {n : Nat} {table : List Row} {R S : Nat → Nat → Prop} (h : Holds n table R)
    (hRS : ∀ i < n, ∀ j, R i j ↔ S i j) : Holds n table S :=
  ⟨h.1, fun i hi j => (h.2 i hi j).trans (hRS i hi j)⟩

/-- The bits that a row picks from a table. -/
theorem testBit_pick (m : Row) (table : List Row) (j : Nat) :
    (pick m table).testBit j = true ↔
      ∃ k < table.length, m.testBit k = true ∧ (table.getD k 0).testBit j = true := by
  induction table generalizing m with
  | nil => simp [pick]
  | cons r rest ih =>
    unfold pick
    split
    · rename_i h0
      subst h0
      simp
    · rw [Nat.testBit_or, Bool.or_eq_true, ih]
      constructor
      · intro h
        rcases h with h | ⟨k, hk, hm, hr⟩
        · by_cases h0 : m.testBit 0 = true
          · rw [if_pos h0] at h
            exact ⟨0, by simp, h0, h⟩
          · rw [if_neg h0] at h
            simp at h
        · rw [Nat.testBit_shiftRight] at hm
          exact ⟨k + 1, by simpa using hk, by rwa [Nat.add_comm] at hm, by simpa using hr⟩
      · intro h
        rcases h with ⟨k, hk, hm, hr⟩
        cases k with
        | zero =>
          left
          rw [if_pos hm]
          exact hr
        | succ k =>
          right
          refine ⟨k, by simpa using hk, ?_, by simpa using hr⟩
          rwa [Nat.testBit_shiftRight, Nat.add_comm]

/-! ## 2. The operations on tables -/

theorem getD_identity (n s k : Nat) (hk : k < n) : (identity n s).getD k 0 = 1 <<< (s + k) := by
  induction n generalizing s k with
  | zero => omega
  | succ n ih =>
    cases k with
    | zero => simp [identity]
    | succ k =>
      have h := ih (s + 1) k (by omega)
      rw [identity, List.getD_cons_succ, h]
      congr 1
      omega

theorem length_identity (n s : Nat) : (identity n s).length = n := by
  induction n generalizing s with
  | zero => rfl
  | succ n ih => simp [identity, ih]

theorem holds_identity (n : Nat) : Holds n (identity n 0) Eq := by
  refine ⟨length_identity n 0, fun i hi j => ?_⟩
  rw [getD_identity n 0 i hi, Nat.zero_add, Nat.one_shiftLeft, Nat.testBit_two_pow]
  simp

theorem getD_zipWith {α β γ : Type} (f : α → β → γ) (xs : List α) (ys : List β) (a : α) (b : β)
    (c : γ) (i : Nat) (hx : i < xs.length) (hy : i < ys.length) :
    (List.zipWith f xs ys).getD i c = f (xs.getD i a) (ys.getD i b) := by
  have hlen : i < (List.zipWith f xs ys).length := by
    rw [List.length_zipWith]
    omega
  rw [List.getD_eq_getElem _ _ hlen, List.getElem_zipWith, List.getD_eq_getElem _ _ hx,
    List.getD_eq_getElem _ _ hy]

theorem Holds.union {n : Nat} {r s : List Row} {R S : Nat → Nat → Prop} (hr : Holds n r R)
    (hs : Holds n s S) : Holds n (union r s) (fun i j => R i j ∨ S i j) := by
  refine ⟨by simp [Regex.union, hr.1, hs.1], fun i hi j => ?_⟩
  rw [Regex.union, getD_zipWith _ r s 0 0 0 i (by rw [hr.1]; exact hi) (by rw [hs.1]; exact hi),
    Nat.testBit_or, Bool.or_eq_true, hr.2 i hi, hs.2 i hi]

theorem Holds.compose {n : Nat} {r s : List Row} {R S : Nat → Nat → Prop} (hr : Holds n r R)
    (hs : Holds n s S) (hR : Forward n R) : Holds n (compose r s) (Then R S) := by
  refine ⟨by simp [Regex.compose, hr.1], fun i hi j => ?_⟩
  have hrow : (Regex.compose r s).getD i 0 = pick (r.getD i 0) s := by
    have hi' : i < r.length := by rw [hr.1]; exact hi
    simp [Regex.compose, List.getD_eq_getElem?_getD, hi']
  rw [hrow, testBit_pick, hs.1]
  constructor
  · intro h
    rcases h with ⟨k, hk, h1, h2⟩
    exact ⟨k, (hr.2 i hi k).mp h1, (hs.2 k hk j).mp h2⟩
  · intro h
    rcases h with ⟨k, h1, h2⟩
    have hk := (hR i k hi h1).2
    exact ⟨k, hk, (hr.2 i hi k).mpr h1, (hs.2 k hk j).mpr h2⟩

theorem Holds.keep {n : Nat} {table : List Row} {R : Nat → Nat → Prop} {condition : List Bool}
    {p : Nat → Prop} (ht : Holds n table R) (hl : condition.length = n)
    (hp : ∀ i < n, condition.getD i false = true ↔ p i) :
    Holds n (keep condition table) (fun i j => p i ∧ R i j) := by
  refine ⟨by simp [Regex.keep, hl, ht.1], fun i hi j => ?_⟩
  rw [Regex.keep, getD_zipWith _ condition table false 0 0 i (by rw [hl]; exact hi)
    (by rw [ht.1]; exact hi)]
  have hp' := hp i hi
  have ht' := ht.2 i hi j
  by_cases hc : condition.getD i false = true
  · rw [if_pos hc, ht']
    exact ⟨fun h => ⟨hp'.mp hc, h⟩, And.right⟩
  · rw [if_neg hc]
    exact ⟨fun h => absurd h (by simp), fun h => absurd (hp'.mpr h.1) hc⟩

/-! ## 3. Repetition -/

theorem Repeated.single {R : Nat → Nat → Prop} {i j : Nat} (h : R i j) : Repeated R i j :=
  .head h (.refl j)

/-- A repetition stays where it is, or its steps that move begin with one. -/
theorem repeated_iff {n : Nat} {R : Nat → Nat → Prop} (hR : Forward n R) {i j : Nat} (hi : i < n) :
    Repeated R i j ↔ i = j ∨ ∃ k, i < k ∧ k < n ∧ R i k ∧ Repeated R k j := by
  constructor
  · intro h
    induction h with
    | refl i => exact .inl rfl
    | @head i k j hik hkj ih =>
      obtain ⟨hle, hlt⟩ := hR i k hi hik
      rcases Nat.eq_or_lt_of_le hle with rfl | hlt'
      · exact ih hi
      · exact .inr ⟨k, hlt', hlt, hik, hkj⟩
  · intro h
    rcases h with rfl | ⟨k, _, _, hik, hkj⟩
    · exact .refl i
    · exact .head hik hkj

theorem repeated_forward {n : Nat} {R : Nat → Nat → Prop} (hR : Forward n R) :
    Forward n (Repeated R) := by
  intro i j hi h
  induction h with
  | refl i => exact ⟨Nat.le_refl i, hi⟩
  | head hik _ ih =>
    obtain ⟨h1, h2⟩ := hR _ _ hi hik
    obtain ⟨h3, h4⟩ := ih h2
    exact ⟨Nat.le_trans h1 h3, h4⟩

theorem length_closure (i : Nat) (table : List Row) : (closure i table).length = table.length := by
  induction table generalizing i with
  | nil => rfl
  | cons r rest ih => simp [Regex.closure, ih]

/-- The rows of a closure, for a table whose first row is that of place `i`. -/
theorem testBit_closure {n i : Nat} {table : List Row} {R : Nat → Nat → Prop} (hR : Forward n R)
    (hn : i + table.length = n)
    (h : ∀ k < table.length, ∀ j, (table.getD k 0).testBit j = true ↔ R (i + k) j) :
    ∀ k < table.length, ∀ j,
      ((closure i table).getD k 0).testBit j = true ↔ Repeated R (i + k) j := by
  induction table generalizing i with
  | nil => simp
  | cons r rest ih =>
    have hlen : i + 1 + rest.length = n := by
      rw [← hn, List.length_cons]
      omega
    have later := ih (i := i + 1) hlen fun k hk j => by
      have := h (k + 1) (by simpa using hk) j
      rwa [List.getD_cons_succ, show i + (k + 1) = i + 1 + k by omega] at this
    intro k hk j
    cases k with
    | succ k =>
      have := later k (by simpa using hk) j
      rwa [Regex.closure, List.getD_cons_succ, show i + (k + 1) = i + 1 + k by omega]
    | zero =>
      have first : ∀ j, r.testBit j = true ↔ R i j := fun j => by simpa using h 0 (by simp) j
      have hi : i < n := by omega
      rw [Regex.closure, List.getD_cons_zero, Nat.testBit_or, Bool.or_eq_true, testBit_pick,
        length_closure, Nat.one_shiftLeft, Nat.testBit_two_pow, Nat.add_zero]
      refine Iff.trans (or_congr (by simp) ⟨?_, ?_⟩) (repeated_iff hR hi).symm
      · intro h
        rcases h with ⟨k, hk, hm, hb⟩
        rw [Nat.testBit_shiftRight, first] at hm
        exact ⟨i + 1 + k, by omega, by omega, hm, (later k hk j).mp hb⟩
      · intro h
        rcases h with ⟨k, hik, hkn, hm, hb⟩
        refine ⟨k - (i + 1), by omega, ?_, ?_⟩
        · rw [Nat.testBit_shiftRight, first, show i + 1 + (k - (i + 1)) = k by omega]
          exact hm
        · rw [later _ (by omega), show i + 1 + (k - (i + 1)) = k by omega]
          exact hb

theorem Holds.closure {n : Nat} {table : List Row} {R : Nat → Nat → Prop} (h : Holds n table R)
    (hR : Forward n R) : Holds n (closure 0 table) (Repeated R) := by
  refine ⟨by rw [length_closure, h.1], fun i hi j => ?_⟩
  have := testBit_closure hR (i := 0) (by rw [h.1, Nat.zero_add])
    (fun k hk j => by rw [Nat.zero_add]; exact h.2 k (by rw [← h.1]; exact hk) j) i
    (by rw [h.1]; exact hi) j
  rwa [Nat.zero_add] at this

/-! ## 4. Characters and anchors -/

theorem consume_spec (p : Char → Bool) (cs : List Char) (table : List Row)
    (h : table.length = cs.length + 1) :
    (Subject.consume p cs table).length = cs.length + 1 ∧
      ∀ i j, ((Subject.consume p cs table).getD i 0).testBit j = true ↔
        ∃ c, cs[i]? = some c ∧ p c = true ∧ (table.getD (i + 1) 0).testBit j = true := by
  induction cs generalizing table with
  | nil =>
    refine ⟨rfl, fun i j => ?_⟩
    cases i <;> simp [Subject.consume]
  | cons c rest ih =>
    match table, h with
    | row :: next :: table, h =>
      obtain ⟨hlen, hbit⟩ := ih (next :: table) (by simpa using h)
      refine ⟨by simp [Subject.consume, hlen], fun i j => ?_⟩
      cases i with
      | succ i => simpa [Subject.consume] using hbit i j
      | zero =>
        by_cases hp : p c = true
        · by_cases hn : next = 0
          · simp [Subject.consume, hp, hn]
          · simp [Subject.consume, hp, hn]
        · simp [Subject.consume, hp]

/-- One character that passes a test, as a relation of places. -/
def Step (t : Subject) (p : Char → Bool) (i j : Nat) : Prop :=
  j = i + 1 ∧ ∃ c, t.text[i]? = some c ∧ p c = true

theorem step_forward (t : Subject) (p : Char → Bool) : Forward t.places (Step t p) := by
  intro i j hi h
  rcases h with ⟨rfl, c, hc, _⟩
  have := (List.getElem?_eq_some_iff.mp hc).1
  exact ⟨Nat.le_succ i, by unfold Subject.places; omega⟩

theorem holds_consume (t : Subject) (p : Char → Bool) {table : List Row} {S : Nat → Nat → Prop}
    (h : Holds t.places table S) :
    Holds t.places (Subject.consume p t.text table) (Then (Step t p) S) := by
  obtain ⟨hlen, hbit⟩ := consume_spec p t.text table h.1
  refine ⟨hlen, fun i hi j => (hbit i j).trans ⟨?_, ?_⟩⟩
  · intro h
    rcases h with ⟨c, hc, hp, hb⟩
    have hlt := (List.getElem?_eq_some_iff.mp hc).1
    exact ⟨i + 1, ⟨rfl, c, hc, hp⟩,
      (h.2 (i + 1) (by unfold Subject.places; omega) j).mp hb⟩
  · intro h
    rcases h with ⟨k, ⟨rfl, c, hc, hp⟩, hS⟩
    have hlt := (List.getElem?_eq_some_iff.mp hc).1
    exact ⟨c, hc, hp, (h.2 (i + 1) (by unfold Subject.places; omega) j).mpr hS⟩

theorem anchorHolds_spec (a : Anchor) (multiline : Bool) (before : Option Char) (cs : List Char) :
    (Subject.anchorHolds a multiline before cs).length = cs.length + 1 ∧
      ∀ i ≤ cs.length, (Subject.anchorHolds a multiline before cs).getD i false =
        Subject.anchorHolds.holds a multiline (if i = 0 then before else cs[i - 1]?)
          (cs.drop i) := by
  induction cs generalizing before with
  | nil =>
    refine ⟨rfl, fun i hi => ?_⟩
    have h0 : i = 0 := by simpa using hi
    subst h0
    rfl
  | cons c rest ih =>
    obtain ⟨hlen, hget⟩ := ih (some c)
    refine ⟨by simp [Subject.anchorHolds, hlen], fun i hi => ?_⟩
    cases i with
    | zero => rfl
    | succ i =>
      rw [Subject.anchorHolds, List.getD_cons_succ, hget i (by simpa using hi)]
      cases i <;> simp

/-- The places where an anchor is found to hold. -/
theorem anchorHolds_iff (t : Subject) (a : Anchor) (i : Nat) (hi : i < t.places) :
    (Subject.anchorHolds a t.multiline none t.text).getD i false = true ↔ a.Holds t i := by
  have hi' : i ≤ t.text.length := Nat.lt_succ_iff.mp hi
  rw [(anchorHolds_spec a t.multiline none t.text).2 i hi']
  have hempty : (t.text.drop i).isEmpty = true ↔ i = t.text.length := by
    rw [List.isEmpty_iff, List.drop_eq_nil_iff]
    omega
  have hbefore : (if i = 0 then none else t.text[i - 1]?) = none ↔ i = 0 := by
    split
    · simpa
    · rename_i h0
      simp only [h0, iff_false, List.getElem?_eq_none_iff]
      omega
  cases a with
  | start => simpa [Subject.anchorHolds.holds, Anchor.Holds] using hbefore
  | stop => simpa [Subject.anchorHolds.holds, Anchor.Holds] using hempty
  | lineStart =>
    by_cases h0 : i = 0
    · simp [Subject.anchorHolds.holds, Anchor.Holds, h0]
    · simp only [Subject.anchorHolds.holds, Anchor.Holds, h0, if_false, false_or, Bool.or_eq_true,
        Bool.and_eq_true, Option.isNone_iff_eq_none, beq_iff_eq]
      have hn : t.text[i - 1]? ≠ none := by
        rw [Ne, List.getElem?_eq_none_iff]
        omega
      simp [hn]
  | lineStop =>
    simp only [Subject.anchorHolds.holds, Anchor.Holds, Bool.or_eq_true, Bool.and_eq_true,
      beq_iff_eq, hempty, List.head?_drop, or_assoc]

/-! ## 5. Runs -/

/-- A relation of places under a quantifier leads forward if the relation does. -/
theorem quantifier_forward {n : Nat} {R : Nat → Nat → Prop} (hR : Forward n R) (q : Quantifier) :
    Forward n (q.Leads R) := by
  have hrep := repeated_forward hR
  cases q with
  | once => exact hR
  | optional =>
    intro i j hi h
    rcases h with rfl | h
    · exact ⟨Nat.le_refl i, hi⟩
    · exact hR i j hi h
  | plus =>
    intro i j hi h
    rcases h with ⟨k, hik, hkj⟩
    obtain ⟨h1, h2⟩ := hR i k hi hik
    obtain ⟨h3, h4⟩ := hrep k j h2 hkj
    exact ⟨Nat.le_trans h1 h3, h4⟩
  | star => exact hrep
  | lazyStar => exact hrep

/-- If a step puts a relation in front of a table, a quantified step puts it there as often as the
    quantifier says. -/
theorem holds_quantified (t : Subject) {step : List Row → List Row} {R S : Nat → Nat → Prop}
    (hR : Forward t.places R)
    (hstep : ∀ table T, Holds t.places table T → Holds t.places (step table) (Then R T))
    (q : Quantifier) {table : List Row} (h : Holds t.places table S) :
    Holds t.places (t.quantified step q table) (Then (q.Leads R) S) := by
  have hone : Holds t.places (step (identity t.places 0)) R :=
    (hstep _ _ (holds_identity t.places)).congr fun i _ j =>
      ⟨by rintro ⟨k, hk, rfl⟩; exact hk, fun hij => ⟨j, hij, rfl⟩⟩
  have hmany := (hone.closure hR).compose h (repeated_forward hR)
  cases q with
  | once => exact hstep _ _ h
  | optional =>
    refine (h.union (hstep _ _ h)).congr fun i _ j => ?_
    constructor
    · intro h
      rcases h with hS | ⟨k, hk, hS⟩
      · exact ⟨i, .inl rfl, hS⟩
      · exact ⟨k, .inr hk, hS⟩
    · intro h
      rcases h with ⟨k, rfl | hk, hS⟩
      · exact .inl hS
      · exact .inr ⟨k, hk, hS⟩
  | plus =>
    exact (hone.compose hmany hR).congr fun i _ j => then_assoc
  | star => exact hmany
  | lazyStar => exact hmany

/-- What a regex leads to lies ahead. -/
theorem leadsBy_forward (t : Subject) (r : Regex) (side : Bool) :
    Forward t.places (r.LeadsBy t side) := by
  induction r generalizing side with
  | done =>
    intro i j hi h
    rcases h with ⟨_, rfl⟩
    exact ⟨Nat.le_refl i, hi⟩
  | single s q rest ih =>
    intro i j hi h
    cases side with
    | true => exact ih true i j hi h
    | false =>
      obtain ⟨k, hik, hkj⟩ := h
      obtain ⟨h1, h2⟩ := quantifier_forward (step_forward t _) q i k hi hik
      obtain ⟨h3, h4⟩ := ih false k j h2 hkj
      exact ⟨Nat.le_trans h1 h3, h4⟩
  | anchor a rest ih =>
    intro i j hi h
    cases side with
    | true => exact ih true i j hi h
    | false => exact ih false i j hi h.2
  | group k body q rest ihb ihr =>
    intro i j hi h
    have hbody : Forward t.places fun a b => ∃ side, body.LeadsBy t side a b :=
      fun a b ha ⟨side, hab⟩ => ihb side a b ha hab
    cases side with
    | true => exact ihr true i j hi h
    | false =>
      cases k with
      | plain =>
        obtain ⟨m, him, hmj⟩ := h
        obtain ⟨h1, h2⟩ := quantifier_forward hbody q i m hi him
        obtain ⟨h3, h4⟩ := ihr false m j h2 hmj
        exact ⟨Nat.le_trans h1 h3, h4⟩
      | ahead => exact ihr false i j hi h.2
      | notAhead => exact ihr false i j hi h.2
  | bar rest ih =>
    intro i j hi h
    cases side with
    | true =>
      obtain ⟨side, hs⟩ := h
      exact ih side i j hi hs
    | false =>
      obtain rfl : i = j := h
      exact ⟨Nat.le_refl i, hi⟩

/-- A row of a table is empty exactly if its place is related to none. -/
theorem Holds.row_ne_zero {n : Nat} {table : List Row} {R : Nat → Nat → Prop}
    (h : Holds n table R) {i : Nat} (hi : i < n) : table.getD i 0 ≠ 0 ↔ ∃ j, R i j := by
  constructor
  · intro h0
    obtain ⟨j, hj⟩ := Nat.exists_testBit_of_ne_zero h0
    exact ⟨j, (h.2 i hi j).mp hj⟩
  · rintro ⟨j, hj⟩ h0
    have := (h.2 i hi j).mpr hj
    rw [h0] at this
    simp at this

theorem getD_map_test {n : Nat} {table : List Row} {R : Nat → Nat → Prop} (h : Holds n table R)
    (f : Row → Bool) {i : Nat} (hi : i < n) :
    (table.map f).getD i false = f (table.getD i 0) := by
  have hi' : i < table.length := by rw [h.1]; exact hi
  simp [List.getD_eq_getElem?_getD, hi']

/-- **A run holds what its regex relates**: by the first alternative, and by the later ones. -/
theorem run_holds (t : Subject) (r : Regex) (table : List Row) (S : Nat → Nat → Prop)
    (h : Holds t.places table S) :
    Holds t.places (r.run t table).1 (Then (r.LeadsBy t false) S) ∧
      Holds t.places (r.run t table).2 (Then (r.LeadsBy t true) S) := by
  induction r generalizing table S with
  | done =>
    constructor
    · refine h.congr fun i _ j => ⟨fun hS => ⟨i, ⟨rfl, rfl⟩, hS⟩, ?_⟩
      intro h
      rcases h with ⟨k, ⟨_, rfl⟩, hS⟩
      exact hS
    · refine ⟨by simp [run, h.1], fun i hi j => ?_⟩
      have hi' : i < table.length := by rw [h.1]; exact hi
      simp [run, Then, LeadsBy, List.getD_eq_getElem?_getD, hi']
  | single s q rest ih =>
    obtain ⟨h1, h2⟩ := ih table S h
    refine ⟨?_, h2⟩
    exact (holds_quantified t (step_forward t _) (fun _ _ => holds_consume t _) q h1).congr
      fun i _ j => then_assoc
  | anchor a rest ih =>
    obtain ⟨h1, h2⟩ := ih table S h
    refine ⟨?_, h2⟩
    exact (h1.keep (anchorHolds_spec a t.multiline none t.text).1 (anchorHolds_iff t a)).congr
      fun i _ j => guarded_then
  | group k body q rest ihb ihr =>
    obtain ⟨h1, h2⟩ := ihr table S h
    have hbody : Forward t.places fun a b => ∃ side, body.LeadsBy t side a b :=
      fun a b ha ⟨side, hab⟩ => leadsBy_forward t body side a b ha hab
    have inside (table : List Row) (T : Nat → Nat → Prop) (hT : Holds t.places table T) :
        Holds t.places (union (body.run t table).1 (body.run t table).2)
          (Then (fun a b => ∃ side, body.LeadsBy t side a b) T) := by
      obtain ⟨b1, b2⟩ := ihb table T hT
      exact (b1.union b2).congr fun i _ j => sides_then
    have hinside := inside _ _ (holds_identity t.places)
    have hahead (i : Nat) (hi : i < t.places) := hinside.row_ne_zero hi
    have hsome (i : Nat) :
        (∃ j, Then (fun a b => ∃ side, body.LeadsBy t side a b) Eq i j) ↔
          ∃ side m, body.LeadsBy t side i m :=
      ⟨fun ⟨_, m, ⟨side, hm⟩, _⟩ => ⟨side, m, hm⟩, fun ⟨side, m, hm⟩ => ⟨m, m, ⟨side, hm⟩, rfl⟩⟩
    refine ⟨?_, by cases k <;> exact h2⟩
    cases k with
    | plain =>
      exact (holds_quantified t hbody inside q h1).congr fun i _ j => then_assoc
    | ahead =>
      refine (h1.keep (p := fun i => ∃ side m, body.LeadsBy t side i m) (by simp [hinside.1])
        fun i hi => ?_).congr fun i _ j => guarded_then
      rw [getD_map_test hinside _ hi, bne_iff_ne, hahead i hi, hsome]
    | notAhead =>
      refine (h1.keep (p := fun i => ¬ ∃ side m, body.LeadsBy t side i m) (by simp [hinside.1])
        fun i hi => ?_).congr fun i _ j => guarded_then
      rw [getD_map_test hinside _ hi, beq_iff_eq, ← hsome, ← hahead i hi, not_not]
  | bar rest ih =>
    obtain ⟨h1, h2⟩ := ih table S h
    constructor
    · refine h.congr fun i _ j => ⟨fun hS => ⟨i, rfl, hS⟩, ?_⟩
      intro h
      rcases h with ⟨k, rfl, hS⟩
      exact hS
    · exact (h1.union h2).congr fun i _ j => sides_then

/-- The bits that `reach` gives are the places to which the regex leads. -/
theorem holds_reach (t : Subject) (r : Regex) : Holds t.places (r.reach t) (r.Leads t) := by
  obtain ⟨h1, h2⟩ := run_holds t r _ _ (holds_identity t.places)
  refine (h1.union h2).congr fun i _ j => ?_
  constructor
  · intro h
    rcases h with ⟨k, hk, rfl⟩ | ⟨k, hk, rfl⟩
    · exact ⟨false, hk⟩
    · exact ⟨true, hk⟩
  · intro h
    rcases h with ⟨side, hk⟩
    cases side with
    | false => exact .inl ⟨j, hk, rfl⟩
    | true => exact .inr ⟨j, hk, rfl⟩

/-- **A regex is found in a text exactly if it leads from some place of it to some other one.** -/
theorem isFound_iff (t : Subject) (r : Regex) :
    r.isFound t = true ↔ ∃ i < t.places, ∃ j, r.Leads t i j := by
  have h := holds_reach t r
  rw [isFound, List.any_eq_true]
  constructor
  · intro h
    rcases h with ⟨row, hrow, hne⟩
    obtain ⟨i, hi, rfl⟩ := List.getElem_of_mem hrow
    have hi' : i < t.places := by rw [← h.1]; exact hi
    refine ⟨i, hi', (h.row_ne_zero hi').mp ?_⟩
    rw [List.getD_eq_getElem _ _ hi]
    exact bne_iff_ne.mp hne
  · intro h
    rcases h with ⟨i, hi, hj⟩
    have hi' : i < (r.reach t).length := by rw [h.1]; exact hi
    refine ⟨(r.reach t)[i], List.getElem_mem hi', bne_iff_ne.mpr ?_⟩
    have := (h.row_ne_zero hi).mpr hj
    rwa [List.getD_eq_getElem _ _ hi'] at this

end Wildcard.Regex
