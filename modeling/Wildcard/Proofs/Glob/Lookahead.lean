import Mathlib.Logic.Relation
import Wildcard.Proofs.Glob.Bounds
import Wildcard.Proofs.Glob.Scan

/-!
# The closing bracket, step by step

Looking for the bracket that closes a class goes from place to place of the text. It stops where it
stands on a closing bracket; from any other place there is exactly one step on, and some of the
steps are jumps. The table that is built from right to left holds for each place where the steps
from there lead to, although they may jump over any number of its other entries.

* `nameEnd?_eq_some_iff`: what is found as the next `:]` is the first one.
* `Passes`, `Passes.unique`: one step, and that there is no choice in it.
* `Scanned`, `Scanned.unique`: where the steps lead to.
* `scanned_scan`: reading forward takes these steps.
* `scanned_iff_closeAt`: the table holds where they lead to, and no look-up leaves it.
-/

namespace Wildcard.Bracket

open Relation (ReflTransGen)

variable {cs : List Char} {i k : Nat} {r r' : Option Nat}

/-! ## 1. One step -/

/-- The first `:]` at place `i` or behind it stands at place `k`. -/
structure NextNameEnd (cs : List Char) (i k : Nat) : Prop where
  le : i ≤ k
  colon : cs[k]? = some ':'
  bracket : cs[k + 1]? = some ']'
  first : ∀ j, i ≤ j → j < k → ¬ (cs[j]? = some ':' ∧ cs[j + 1]? = some ']')

/-- **The next `:]` that is found** is the first one. -/
theorem nameEnd?_eq_some_iff {d : Nat} :
    nameEnd? (cs.drop i) = some d ↔ NextNameEnd cs i (i + d) := by
  generalize hrest : cs.drop i = rest
  fun_induction nameEnd? rest generalizing i d with
  | case1 rest =>
    obtain ⟨hcolon, hnext⟩ := getElem?_of_drop hrest
    obtain ⟨hbracket, -⟩ := getElem?_of_drop hnext
    constructor
    · intro h
      cases h
      exact ⟨Nat.le_refl _, hcolon, hbracket, fun j hj hj' => absurd hj' (Nat.not_lt.mpr hj)⟩
    · intro h
      cases d with
      | zero => rfl
      | succ d => exact absurd ⟨hcolon, hbracket⟩ (h.first i (Nat.le_refl _) (by omega))
  | case2 c rest hno ih =>
    obtain ⟨hc, hnext⟩ := getElem?_of_drop hrest
    have hhere : ¬ (cs[i]? = some ':' ∧ cs[i + 1]? = some ']') := by
      rintro ⟨hcolon, hbracket⟩
      rw [hc] at hcolon
      rw [← List.head?_drop, hnext] at hbracket
      obtain ⟨rest', rfl⟩ := List.head?_eq_some_iff.mp hbracket
      exact hno rest' (Option.some.inj hcolon) rfl
    cases d with
    | zero =>
      refine iff_of_false (fun h => ?_) fun h => hhere ⟨h.colon, h.bracket⟩
      obtain ⟨d, -, hd⟩ := Option.map_eq_some_iff.mp h
      exact Nat.succ_ne_zero d hd
    | succ d =>
      have hplace : i + (d + 1) = i + 1 + d := by omega
      have hlater : (nameEnd? rest).map (· + 1) = some (d + 1) ↔ nameEnd? rest = some d := by
        cases nameEnd? rest <;> simp
      rw [hplace, hlater, ih hnext]
      constructor
      · intro h
        refine ⟨by omega, h.colon, h.bracket, fun j hj hj' => ?_⟩
        rcases Nat.lt_or_eq_of_le hj with hj | rfl
        · exact h.first j hj hj'
        · exact hhere
      · intro h
        exact ⟨by omega, h.colon, h.bracket, fun j hj hj' => h.first j (by omega) hj'⟩
  | case3 =>
    refine iff_of_false (Option.some_ne_none d).symm fun h => ?_
    have hlength := List.drop_eq_nil_iff.mp hrest
    obtain ⟨hlt, -⟩ := List.getElem?_eq_some_iff.mp h.colon
    omega

theorem NextNameEnd.unique {k' : Nat} (h : NextNameEnd cs i k) (h' : NextNameEnd cs i k') :
    k = k' := by
  obtain ⟨d, rfl⟩ := Nat.exists_eq_add_of_le h.le
  obtain ⟨d', rfl⟩ := Nat.exists_eq_add_of_le h'.le
  have hd := nameEnd?_eq_some_iff.mpr h
  rw [nameEnd?_eq_some_iff.mpr h'] at hd
  rw [Option.some.inj hd]

/-- One step of looking for the bracket that closes a class: a backslash takes the next character
    with it, and `[:` everything up to the next `:]` if there is one. -/
inductive Passes (cs : List Char) (i : Nat) : Nat → Prop
  | escape : cs[i]? = some '\\' → Passes cs i (i + 2)
  | name {k : Nat} : cs[i]? = some '[' → cs[i + 1]? = some ':' → NextNameEnd cs (i + 2) k →
      Passes cs i (k + 2)
  | other {c : Char} : cs[i]? = some c → c ≠ '\\' → c ≠ ']' →
      (c = '[' → cs[i + 1]? = some ':' → ∀ k, ¬ NextNameEnd cs (i + 2) k) → Passes cs i (i + 1)

/-- There is no choice in a step. -/
theorem Passes.unique {k' : Nat} (h : Passes cs i k) (h' : Passes cs i k') : k = k' := by
  cases h with
  | escape hc =>
    cases h' with
    | escape => rfl
    | name hc' => exact absurd (Option.some.inj (hc.symm.trans hc')) (by decide)
    | other hc' hback => exact absurd (Option.some.inj (hc'.symm.trans hc)) hback
  | name hc hcolon hname =>
    cases h' with
    | escape hc' => exact absurd (Option.some.inj (hc.symm.trans hc')) (by decide)
    | name _ _ hname' => rw [hname.unique hname']
    | other hc' _ _ hno =>
      exact absurd hname (hno (Option.some.inj (hc'.symm.trans hc)) hcolon _)
  | other hc hback hclose hno =>
    cases h' with
    | escape hc' => exact absurd (Option.some.inj (hc.symm.trans hc')) hback
    | name hc' hcolon hname =>
      exact absurd hname (hno (Option.some.inj (hc.symm.trans hc')) hcolon _)
    | other => rfl

/-! ## 2. All steps -/

/-- Where the search ends: on a closing bracket, or behind the text. -/
inductive Ends (cs : List Char) (i : Nat) : Option Nat → Prop
  | closing : cs[i]? = some ']' → Ends cs i (some i)
  | off : cs.length ≤ i → Ends cs i none

/-- No step leads on from the end of a search. -/
theorem Ends.not_passes (h : Ends cs i r) : ¬ Passes cs i k := by
  intro hstep
  cases h with
  | closing hclose =>
    cases hstep with
    | escape hc => exact absurd (Option.some.inj (hclose.symm.trans hc)) (by decide)
    | name hc => exact absurd (Option.some.inj (hclose.symm.trans hc)) (by decide)
    | other hc _ hne => exact hne (Option.some.inj (hc.symm.trans hclose))
  | off hle =>
    have hnone := List.getElem?_eq_none hle
    cases hstep with
    | escape hc => exact absurd (hnone.symm.trans hc) nofun
    | name hc => exact absurd (hnone.symm.trans hc) nofun
    | other hc => exact absurd (hnone.symm.trans hc) nofun

theorem Ends.unique (h : Ends cs i r) (h' : Ends cs i r') : r = r' := by
  have hplace (hclose : cs[i]? = some ']') : i < cs.length :=
    (List.getElem?_eq_some_iff.mp hclose).1
  cases h with
  | closing hclose =>
    cases h' with
    | closing => rfl
    | off hle => exact absurd (hplace hclose) (Nat.not_lt.mpr hle)
  | off hle =>
    cases h' with
    | closing hclose => exact absurd (hplace hclose) (Nat.not_lt.mpr hle)
    | off => rfl

/-- What the search from a place finds: the place of a closing bracket, or none. -/
def Scanned (cs : List Char) (i : Nat) (r : Option Nat) : Prop :=
  ∃ k, ReflTransGen (Passes cs) i k ∧ Ends cs k r

theorem Scanned.head (hstep : Passes cs i k) (h : Scanned cs k r) : Scanned cs i r := by
  obtain ⟨k', hsteps, hend⟩ := h
  exact ⟨k', .head hstep hsteps, hend⟩

/-- **The search finds one thing**: its steps leave no choice, and there are none behind its end. -/
theorem Scanned.unique (h : Scanned cs i r) (h' : Scanned cs i r') : r = r' := by
  obtain ⟨k, hsteps, hend⟩ := h
  obtain ⟨k', hsteps', hend'⟩ := h'
  have hsame : k = k' := by
    have hunique : Relator.RightUnique (Passes cs) := fun _ _ _ => Passes.unique
    rcases ReflTransGen.total_of_right_unique hunique hsteps hsteps' with hmore | hmore
    · rcases hmore.cases_head with rfl | ⟨_, hstep, -⟩
      · rfl
      · exact absurd hstep hend.not_passes
    · rcases hmore.cases_head with rfl | ⟨_, hstep, -⟩
      · rfl
      · exact absurd hstep hend'.not_passes
  subst hsame
  exact hend.unique hend'

/-- Behind a step, what is found is counted from one place instead of the other. -/
theorem map_map_add {d : Nat} (s : Option Nat) (h : i + d = k) :
    (s.map (· + d)).map (i + ·) = s.map (k + ·) := by
  subst h
  cases s with
  | none => rfl
  | some n => exact congrArg some (show i + (n + d) = i + d + n by omega)

/-- **Reading forward takes these steps.** -/
theorem scanned_scan (cs : List Char) (i : Nat) :
    Scanned cs i ((scan (cs.drop i)).map (i + ·)) := by
  generalize hrest : cs.drop i = rest
  fun_induction scan rest generalizing i with
  | case1 => exact ⟨i, .refl, .off (List.drop_eq_nil_iff.mp hrest)⟩
  | case2 rest ih =>
    obtain ⟨hback, hnext⟩ := getElem?_of_drop hrest
    rw [map_map_add _ rfl]
    exact .head (.escape hback) (ih (i + 2) (by rw [← hnext, List.drop_drop]))
  | case3 rest =>
    obtain ⟨hclose, -⟩ := getElem?_of_drop hrest
    exact ⟨i, .refl, .closing hclose⟩
  | case4 rest d hd ih =>
    obtain ⟨hopen, hnext⟩ := getElem?_of_drop hrest
    obtain ⟨hcolon, hbehind⟩ := getElem?_of_drop hnext
    rw [← hbehind] at hd
    have hname := nameEnd?_eq_some_iff.mp hd
    rw [map_map_add _ (show i + (d + 4) = i + 1 + 1 + d + 2 by omega)]
    refine .head (.name hopen hcolon hname) (ih _ ?_)
    rw [← hbehind, List.drop_drop, Nat.add_assoc (i + 1 + 1) d 2]
  | case5 rest hnone ih =>
    obtain ⟨hopen, hnext⟩ := getElem?_of_drop hrest
    obtain ⟨-, hbehind⟩ := getElem?_of_drop hnext
    have hno (_ : '[' = '[') (_ : cs[i + 1]? = some ':') (k : Nat) :
        ¬ NextNameEnd cs (i + 2) k := by
      intro h
      obtain ⟨d, rfl⟩ := Nat.exists_eq_add_of_le h.le
      have hd := nameEnd?_eq_some_iff.mpr h
      rw [hbehind, hnone] at hd
      cases hd
    rw [map_map_add _ rfl]
    exact .head (.other hopen (by decide) (by decide) hno) (ih (i + 1) hnext)
  | case6 c rest hback hclose hname ih =>
    obtain ⟨hc, hnext⟩ := getElem?_of_drop hrest
    have hno (hopen : c = '[') (hcolon : cs[i + 1]? = some ':') (k : Nat) :
        ¬ NextNameEnd cs (i + 2) k := by
      rw [← List.head?_drop, hnext] at hcolon
      obtain ⟨rest', rfl⟩ := List.head?_eq_some_iff.mp hcolon
      exact absurd rfl (hname rest' hopen)
    rw [map_map_add _ rfl]
    exact .head (.other hc hback hclose hno) (ih (i + 1) hnext)

/-- **The table holds where the steps lead to**, for every place of the text and the one behind it.
    No look-up leaves the table, neither while it is built nor while a pattern is read with it. -/
theorem scanned_iff_closeAt (cs : List Char) :
    ((lookahead cs).length = cs.length + 1 ∧
      ∀ i r, Scanned cs i r ↔ r = (closeAt (lookahead cs) i).map (i + ·)) ∧
    lookaheadInside? cs = some (lookahead cs) ∧
    (Glob.readInside? cs).map (·.pairs 0) = some (Glob.pairsOf cs) := by
  refine ⟨⟨length_lookahead cs, fun i r => ?_⟩, lookaheadInside?_eq cs, ?_⟩
  · have hscan := scanned_scan cs i
    rw [← closeAt_lookahead, ← closeAt_drop] at hscan
    constructor
    · intro h
      exact h.unique hscan
    · rintro rfl
      exact hscan
  · rw [Glob.readInside?_eq]
    rfl

end Wildcard.Bracket
