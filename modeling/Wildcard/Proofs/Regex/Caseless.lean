import Wildcard.Regex.Choice

/-!
# Characters without case

A character without case is matched by the same items whichever differences of case are ignored
(`accepts_caseless`). Separators, dots and blanks are such characters, so what is said of them
holds under all flags.
-/

namespace Wildcard

/-! ## 1. Letters of ASCII -/

namespace Text

theorem isUpper_eq (c : Char) : c.isUpper = decide ('A' ≤ c ∧ c ≤ 'Z') := rfl

theorem isLower_eq (c : Char) : c.isLower = (decide ('a' ≤ c) && decide (c ≤ 'z')) := rfl

theorem isAlpha_eq (c : Char) : c.isAlpha = (c.isUpper || c.isLower) := rfl

end Text

namespace Regex

open Wildcard.Text

/-- The character is its own lower and upper case, and no other character has it as one. -/
structure Caseless (c : Char) : Prop where
  lower : lower c = c
  upper : upper c = c
  fold : fold c = [c]
  unfold : ∀ x, c ∈ Text.fold x → x = c
  lowerAscii : ∀ x, lowerAscii x = c ↔ x = c
  upperAscii : c.toUpper = c
  basic : c ≤ lastBasic

/-! ## 2. What the tables say -/

/-- No run of the table covers a code point or maps to it, and it has no siblings. -/
def IsApart (n : Nat) : Prop :=
  (∀ r ∈ Case.lowerRuns, r.covers n = false ∧ ¬ (r.first + r.delta ≤ n ∧ n ≤ r.last + r.delta)) ∧
    ∀ ns ∈ Case.siblings, n ∉ ns

instance (n : Nat) : Decidable (IsApart n) :=
  inferInstanceAs (Decidable ((∀ r ∈ Case.lowerRuns,
    r.covers n = false ∧ ¬ (r.first + r.delta ≤ n ∧ n ≤ r.last + r.delta)) ∧
      ∀ ns ∈ Case.siblings, n ∉ ns))

/-- A code point that stands for a character is that of the character. -/
theorem toNat_of_ofNat_eq {n : Nat} {c : Char} (h : Char.ofNat n = c) (hc : c.toNat ≠ 0) :
    c.toNat = n := by
  by_cases hn : n.isValidChar
  · rw [← h, Char.ofNat, dif_pos hn]
    rfl
  · refine absurd ?_ hc
    rw [← h, Char.ofNat, dif_neg hn]
    rfl

/-- A character that stands apart is its own lower case. -/
theorem lower_of_isApart {c : Char} (h : IsApart c.toNat) : lower c = c := by
  have hnone : Case.lowerRuns.find? (·.covers c.toNat) = none := by
    refine List.find?_eq_none.mpr fun r hr => ?_
    rw [(h.1 r hr).1]
    exact Bool.false_ne_true
  rw [lower, Case.target?, hnone]
  rfl

theorem lowerRuns_pos : ∀ r ∈ Case.lowerRuns, 0 < r.first := by decide +kernel

/-- It is matched by itself alone. -/
theorem fold_of_isApart {c : Char} (h : IsApart c.toNat) : fold c = [c] := by
  have hsiblings : siblingsOf c = [] := by
    have hnone : Case.siblings.find? (·.contains c.toNat) = none := by
      refine List.find?_eq_none.mpr fun ns hns hc => h.2 ns hns ?_
      exact List.contains_iff_mem.mp hc
    rw [siblingsOf, hnone]
  have hsources : Case.sources Case.lowerRuns c.toNat = [] := by
    refine List.filterMap_eq_nil_iff.mpr fun r hr => if_neg fun hcovers => (h.1 r hr).2 ?_
    have hpos := lowerRuns_pos r hr
    simp only [Case.Run.covers, Bool.and_eq_true, decide_eq_true_eq] at hcovers
    omega
  rw [fold, lower_of_isApart h, hsiblings, List.flatMap_singleton, hsources]

/-- A character that stands apart matches no other where case is ignored. -/
theorem eq_of_mem_fold {c x : Char} (h : IsApart c.toNat) (hc : c.toNat ≠ 0) (hx : c ∈ fold x) :
    x = c := by
  obtain ⟨l, hl, hcl⟩ := List.mem_flatMap.mp hx
  rcases List.mem_cons.mp hcl with rfl | hsource
  · rcases List.mem_cons.mp hl with hlower | hsibling
    · unfold lower at hlower
      cases hrun : Case.target? Case.lowerRuns x.toNat with
      | none =>
        rw [hrun] at hlower
        exact hlower.symm
      | some l =>
        rw [hrun] at hlower
        obtain ⟨r, hr, rfl⟩ := Option.map_eq_some_iff.mp hrun
        have hcovers := List.find?_some hr
        have hplace := toNat_of_ofNat_eq hlower.symm hc
        refine absurd ?_ (h.1 r (List.mem_of_find?_eq_some hr)).2
        simp only [Case.Run.covers, Bool.and_eq_true, decide_eq_true_eq] at hcovers
        omega
    · unfold siblingsOf at hsibling
      split at hsibling
      · rename_i ns hns
        obtain ⟨n, hn, hcn⟩ := List.mem_map.mp hsibling
        rw [← toNat_of_ofNat_eq hcn hc] at hn
        exact absurd (List.mem_filter.mp hn).1 (h.2 ns (List.mem_of_find?_eq_some hns))
      · cases hsibling
  · obtain ⟨r, hr, hcr⟩ := List.mem_filterMap.mp hsource
    simp only at hcr
    split at hcr
    · rename_i hcovers
      rw [← toNat_of_ofNat_eq (Option.some.inj hcr) hc, (h.1 r hr).1] at hcovers
      cases hcovers
    · cases hcr

/-- No run maps a character to itself, so one that is its own lower case is covered by none. -/
theorem covers_of_lower {c : Char} (h : lower c = c) (hc : c.toNat ≠ 0) :
    ∀ r ∈ Case.lowerRuns, r.covers c.toNat = false := by
  have hmoves : ∀ r ∈ Case.lowerRuns, r.delta ≠ 0 := by decide +kernel
  suffices hnone : Case.lowerRuns.find? (·.covers c.toNat) = none from fun r hr =>
    Bool.eq_false_iff.mpr (List.find?_eq_none.mp hnone r hr)
  rw [lower, Case.target?] at h
  cases hrun : Case.lowerRuns.find? (·.covers c.toNat) with
  | none => rfl
  | some r =>
    rw [hrun] at h
    have hplace := toNat_of_ofNat_eq h hc
    exact absurd (by omega) (hmoves r (List.mem_of_find?_eq_some hrun))

/-- **A character beyond the basic plane that is its own lower case** matches those characters whose
    lower case it is: none of the siblings stands there. -/
theorem mem_fold_iff_of_lower {c x : Char} (h : lower x = x) (hx : lastBasic < x) :
    x ∈ fold c ↔ lower c = x := by
  have hplane : 0xFFFF < x.toNat := hx
  have hne : x.toNat ≠ 0 := by omega
  constructor
  · intro hmem
    obtain ⟨l, hl, hxl⟩ := List.mem_flatMap.mp hmem
    rcases List.mem_cons.mp hxl with rfl | hsource
    · rcases List.mem_cons.mp hl with hlower | hsibling
      · exact hlower.symm
      · unfold siblingsOf at hsibling
        split at hsibling
        · rename_i ns hns
          obtain ⟨n, hn, hxn⟩ := List.mem_map.mp hsibling
          have hbasic : ∀ ns ∈ Case.siblings, ∀ n ∈ ns, n ≤ 0xFFFF := by decide
          have := hbasic ns (List.mem_of_find?_eq_some hns) n (List.mem_filter.mp hn).1
          rw [← toNat_of_ofNat_eq hxn hne] at this
          omega
        · cases hsibling
    · obtain ⟨r, hr, hxr⟩ := List.mem_filterMap.mp hsource
      simp only at hxr
      split at hxr
      · rename_i hcovers
        rw [← toNat_of_ofNat_eq (Option.some.inj hxr) hne, covers_of_lower h hne r hr] at hcovers
        cases hcovers
      · cases hxr
  · rintro rfl
    exact List.mem_flatMap.mpr ⟨lower c, List.mem_cons_self, List.mem_cons_self⟩

/-- A character that is no letter of ASCII is the lower case of itself alone. -/
theorem lowerAscii_eq_iff {c : Char} (h : c.isAlpha = false) (x : Char) :
    lowerAscii x = c ↔ x = c := by
  have hlower : ¬ (97 ≤ c.val.toNat ∧ c.val.toNat ≤ 122) := by
    intro ⟨hlo, hhi⟩
    have hl : c.isLower = true :=
      Bool.and_eq_true_iff.mpr ⟨decide_eq_true hlo, decide_eq_true hhi⟩
    rw [isAlpha_eq, hl, Bool.or_true] at h
    cases h
  have hupper : ¬ (65 ≤ c.val.toNat ∧ c.val.toNat ≤ 90) := by
    intro hu
    have hu : c.isUpper = true := decide_eq_true hu
    rw [isAlpha_eq, hu, Bool.true_or] at h
    cases h
  unfold lowerAscii Char.toLower
  split
  · rename_i hx
    have hlo : 65 ≤ x.val.toNat := hx.1
    have hhi : x.val.toNat ≤ 90 := hx.2
    constructor
    · intro hc
      have hval := congrArg (fun c : Char => c.val.toNat) hc
      simp only [UInt32.toNat_add] at hval
      change (x.val.toNat + 32) % 2 ^ 32 = c.val.toNat at hval
      omega
    · intro hc
      rw [hc] at hlo hhi
      omega
  · exact Iff.rfl

/-- The tables say so of a character that is no letter of ASCII. -/
theorem Caseless.of_tables {c : Char} (h : Text.upper c = c ∧ IsApart c.toNat)
    (ha : c.isAlpha = false) (hu : c.toUpper = c) (hb : c ≤ lastBasic) (hc : c.toNat ≠ 0) :
    Caseless c :=
  ⟨lower_of_isApart h.2, h.1, fold_of_isApart h.2, fun _ => eq_of_mem_fold h.2 hc,
    lowerAscii_eq_iff ha, hu, hb⟩

theorem caseless_separator : Caseless '/' :=
  .of_tables (by decide +kernel) rfl rfl (by decide) (by decide)

theorem caseless_dot : Caseless '.' :=
  .of_tables (by decide +kernel) rfl rfl (by decide) (by decide)

/-! ## 3. What such a character is matched by -/

section Accepts

variable {c : Char} (h : Caseless c)

include h

theorem Member.accepts_caseless (rule : CaseRule) (m : Member) :
    m.accepts rule c = m.accepts .exact c := by
  have hl : Text.lowerAscii c = c := (h.lowerAscii c).mpr rfl
  cases rule with
  | exact => rfl
  | ascii =>
    cases m with
    | single x =>
      simp only [accepts, hl, Bool.beq_eq_decide_eq, decide_eq_decide]
      rw [eq_comm, h.lowerAscii x, eq_comm]
    | range lo hi =>
      simp only [accepts, hl, h.upperAscii, h.upper]
      cases decide (lo ≤ c) <;> cases decide (c ≤ hi) <;> simp
  | unicode =>
    cases m with
    | single x =>
      simp only [accepts, h.lower, h.fold]
      split
      · rfl
      · simp [eq_comm, Bool.beq_eq_decide_eq]
    | range lo hi =>
      simp only [accepts, h.lower, h.upper, h.fold, List.any_cons, List.any_nil, h.basic]
      cases decide (lo ≤ c) <;> cases decide (c ≤ hi) <;> simp

theorem acceptsChar_caseless (rule : CaseRule) (x : Char) :
    acceptsChar rule x c = (c == x) := by
  cases rule with
  | exact => rfl
  | ascii => exact Member.accepts_caseless h .ascii (.single x)
  | unicode => simp [acceptsChar, h.fold, eq_comm, Bool.beq_eq_decide_eq]

/-- **A character without case is matched alike under all flags.** -/
theorem accepts_caseless (hn : c ≠ '\n') (rule : CaseRule) (dotAll : Bool) (s : Single) :
    s.accepts rule dotAll c = s.accepts .exact false c := by
  cases s with
  | literal l => exact acceptsChar_caseless h rule l.char
  | choice l => exact Member.accepts_caseless h rule (.single l.char)
  | dot => simp [Single.accepts, hn]
  | set negated items =>
    have hlisted : isListed rule (Member.ofLiterals items) c =
        isListed .exact (Member.ofLiterals items) c := by
      unfold isListed
      split
      · exact acceptsChar_caseless h rule _
      · simp only [Member.accepts_caseless h rule]
    simp only [Single.accepts, hlisted]

/-- A character without case matches nothing but itself. -/
theorem acceptsChar_eq_beq (rule : CaseRule) (x : Char) : acceptsChar rule c x = (x == c) := by
  cases rule with
  | exact => rfl
  | ascii =>
    have hc : Text.lowerAscii c = c := (h.lowerAscii c).mpr rfl
    simp only [acceptsChar, hc, Bool.beq_eq_decide_eq, h.lowerAscii x]
  | unicode =>
    simp only [acceptsChar, Bool.beq_eq_decide_eq]
    rw [Bool.eq_iff_iff, List.contains_iff_mem, decide_eq_true_eq]
    constructor
    · exact h.unfold x
    · intro hx
      rw [hx, h.fold]
      exact List.mem_singleton_self c

theorem Member.accepts_single_eq_beq (rule : CaseRule) (x : Char) :
    (Member.single c).accepts rule x = (x == c) := by
  rw [← acceptsChar_eq_beq h rule x]
  cases rule with
  | exact => rfl
  | ascii => rfl
  | unicode =>
    have hbasic : ¬ lastBasic < c := Char.not_lt.mpr h.basic
    rw [accepts, if_neg hbasic]
    rfl

end Accepts

end Regex

end Wildcard
