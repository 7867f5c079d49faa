import Wildcard.Glob.Range
import Wildcard.Proofs.Regex.Caseless

/-!
# What the values of a range are spelled with

A range has at least one value (`values_ne_nil`), its integers lie between its endpoints
(`mem_values_bounds`), and no value is spelled with a separator or a dot: all its characters are
minus signs, digits, or lie between two letters (`mem_expand?`). The text of a range is made of
signs, dots, digits, letters and line feeds (`isRangeChar_of_expand?`).
-/

namespace Wildcard.Range

/-! ## 1. The integers of a range -/

theorem values_ne_nil (first last : Int) (step : Nat) : values first last step ≠ [] := by
  simp [values, count, List.range_succ]

/-- The integers of a range lie between its endpoints. -/
theorem mem_values_bounds {first last v : Int} {step : Nat} (h : v ∈ values first last step) :
    min first last ≤ v ∧ v ≤ max first last := by
  obtain ⟨i, hi, rfl⟩ := List.mem_map.mp h
  have hstep : i * step ≤ (first - last).natAbs := by
    have hle : i ≤ (first - last).natAbs / step := by
      have := List.mem_range.mp hi
      unfold count at this
      omega
    exact Nat.le_trans (Nat.mul_le_mul_right step hle) (Nat.div_mul_le_self _ _)
  split
  · constructor <;> omega
  · constructor <;> omega

/-! ## 2. Their spelling -/

/-- The characters that integers are spelled with, and those between two letters. -/
def IsValueChar (c : Char) : Prop := c = '-' ∨ ('0' ≤ c ∧ c ≤ 'z')

theorem isValueChar_of_isDigit {c : Char} (h : c.isDigit = true) : IsValueChar c := by
  simp only [Char.isDigit, Bool.and_eq_true, decide_eq_true_eq] at h
  refine .inr ⟨h.1, ?_⟩
  exact Nat.le_trans (show c.val.toNat ≤ 57 from h.2) (by decide)

/-- A number with zeros in front is spelled with digits. -/
theorem isDigit_of_mem_zeros {k n : Nat} :
    ∀ c ∈ List.replicate k '0' ++ decimal n, c.isDigit = true := by
  intro c hc
  rcases List.mem_append.mp hc with hc | hc
  · rw [List.eq_of_mem_replicate hc]
    rfl
  · exact Nat.isDigit_of_mem_toDigits (by decide) (by decide) hc

theorem isValueChar_filled {width : Nat} {v : Int} {c : Char} (h : c ∈ filled width v) :
    IsValueChar c := by
  unfold filled at h
  simp only at h
  split at h
  · rcases List.mem_cons.mp h with rfl | h
    · exact .inl rfl
    · exact isValueChar_of_isDigit (isDigit_of_mem_zeros c h)
  · exact isValueChar_of_isDigit (isDigit_of_mem_zeros c h)

theorem letter_bounds {c : Char} (h : isLetter c = true) : 65 ≤ c.toNat ∧ c.toNat ≤ 122 := by
  simp only [isLetter, Text.isAlpha_eq, Text.isUpper_eq, Text.isLower_eq, Bool.or_eq_true, Bool.and_eq_true,
    decide_eq_true_eq] at h
  rcases h with ⟨h1, h2⟩ | ⟨h1, h2⟩
  · have h1 : 65 ≤ c.toNat := h1
    have h2 : c.toNat ≤ 90 := h2
    omega
  · have h1 : 97 ≤ c.toNat := h1
    have h2 : c.toNat ≤ 122 := h2
    omega

/-- The letters of a range are between two letters. -/
theorem letters_of_read {cs : List Char} {first last : Char} {step : Option Numeral}
    (h : Spelled.read? cs = some (.letters first last step)) :
    isLetter first = true ∧ isLetter last = true := by
  unfold Spelled.read? at h
  cases hn : numbers? cs with
  | some s =>
    rw [hn] at h
    cases h
    unfold numbers? at hn
    split at hn
    · cases hn
    · split at hn
      · cases hn
      · obtain ⟨_, _, h⟩ := Option.map_eq_some_iff.mp hn
        cases h
  | none =>
    rw [hn] at h
    change letters? cs = _ at h
    unfold letters? at h
    split at h
    · split at h
      · rename_i hl
        obtain ⟨_, _, h⟩ := Option.map_eq_some_iff.mp h
        cases h
        exact Bool.and_eq_true_iff.mp hl
      · cases h
    · cases h

/-- **A range has a value, and its values are spelled without separators and dots.** -/
theorem mem_expand? {cs : List Char} {vs : List (List Char)} (h : expand? cs = some vs) :
    vs ≠ [] ∧ ∀ v ∈ vs, ∀ c ∈ v, IsValueChar c := by
  obtain ⟨s, hread, hs⟩ := Option.bind_eq_some_iff.mp h
  cases s with
  | numbers first last step =>
    unfold Spelled.expand? at hs
    simp only at hs
    split at hs
    · cases hs
    · cases hs
      refine ⟨by simp [values_ne_nil], fun v hv c hc => ?_⟩
      obtain ⟨i, _, rfl⟩ := List.mem_map.mp hv
      exact isValueChar_filled hc
  | letters first last step =>
    cases hs
    refine ⟨by simp [values_ne_nil], fun v hv c hc => ?_⟩
    obtain ⟨i, hi, rfl⟩ := List.mem_map.mp hv
    obtain ⟨hfirst, hlast⟩ := letters_of_read hread
    have hfirst := letter_bounds hfirst
    have hlast := letter_bounds hlast
    have hbounds := mem_values_bounds hi
    rw [List.mem_singleton.mp hc]
    have hval : (Char.ofNat i.toNat).toNat = i.toNat := by
      rw [Char.ofNat, dif_pos (.inl (by omega))]
      rfl
    refine .inr ⟨?_, ?_⟩
    · change 48 ≤ (Char.ofNat i.toNat).toNat
      omega
    · change (Char.ofNat i.toNat).toNat ≤ 122
      omega

/-! ## 3. The text of a range -/

/-- The characters that a range is written with. -/
def IsRangeChar (c : Char) : Prop :=
  c = '-' ∨ c = '.' ∨ c = '\n' ∨ Text.isDigit c = true ∨ isLetter c = true

theorem isRangeChar_of_read? {cs rest : List Char} {n : Numeral}
    (h : Numeral.read? cs = some (n, rest)) (hrest : ∀ c ∈ rest, IsRangeChar c) :
    ∀ c ∈ cs, IsRangeChar c := by
  have hdigits (ds : List Char) (hds : ds.dropWhile Text.isDigit = rest) :
      ∀ c ∈ ds, IsRangeChar c := by
    intro c hc
    rw [← List.takeWhile_append_dropWhile (p := Text.isDigit) (l := ds), hds] at hc
    rcases List.mem_append.mp hc with hc | hc
    · exact .inr (.inr (.inr (.inl (List.all_eq_true.mp List.all_takeWhile c hc))))
    · exact hrest c hc
  unfold Numeral.read? at h
  simp only at h
  split at h
  · split at h
    · cases h
    · cases h
      exact List.forall_mem_cons.mpr ⟨.inl rfl, hdigits _ rfl⟩
  · split at h
    · cases h
    · cases h
      exact hdigits _ rfl

theorem isRangeChar_of_dots? {cs rest : List Char} (h : dots? cs = some rest)
    (hrest : ∀ c ∈ rest, IsRangeChar c) : ∀ c ∈ cs, IsRangeChar c := by
  unfold dots? at h
  split at h
  · cases h
    have hdot : IsRangeChar '.' := .inr (.inl rfl)
    exact List.forall_mem_cons.mpr ⟨hdot, List.forall_mem_cons.mpr ⟨hdot, hrest⟩⟩
  · cases h

theorem isRangeChar_of_step? {cs : List Char} {step : Option Numeral} (h : step? cs = some step) :
    ∀ c ∈ cs, IsRangeChar c := by
  have hend {cs : List Char} (h : cs = [] ∨ cs = ['\n']) : ∀ c ∈ cs, IsRangeChar c := by
    rcases h with rfl | rfl
    · simp
    · exact List.forall_mem_singleton.mpr (.inr (.inr (.inl rfl)))
  unfold step? at h
  split at h
  · rename_i hcs
    exact hend hcs
  · split at h
    · cases h
    · rename_i hdots
      refine isRangeChar_of_dots? hdots ?_
      split at h
      · rename_i hread
        split at h
        · rename_i hrest
          exact isRangeChar_of_read? hread (hend hrest)
        · cases h
      · cases h

/-- **A range is written** with signs, dots, digits, letters and line feeds. -/
theorem isRangeChar_of_expand? {cs : List Char} {vs : List (List Char)} (h : expand? cs = some vs) :
    ∀ c ∈ cs, IsRangeChar c := by
  obtain ⟨s, hread, -⟩ := Option.bind_eq_some_iff.mp h
  unfold Spelled.read? at hread
  cases hnumbers : numbers? cs with
  | some s' =>
    unfold numbers? at hnumbers
    split at hnumbers
    · cases hnumbers
    · rename_i first rest hfirst
      split at hnumbers
      · cases hnumbers
      · rename_i last rest' hlast
        obtain ⟨step, hstep, -⟩ := Option.map_eq_some_iff.mp hnumbers
        obtain ⟨behind, hdots, hlast⟩ := Option.bind_eq_some_iff.mp hlast
        exact isRangeChar_of_read? hfirst
          (isRangeChar_of_dots? hdots (isRangeChar_of_read? hlast (isRangeChar_of_step? hstep)))
  | none =>
    rw [hnumbers] at hread
    change letters? cs = _ at hread
    unfold letters? at hread
    split at hread
    · rename_i first last rest
      split at hread
      · rename_i hletters
        obtain ⟨hfirst, hlast⟩ := Bool.and_eq_true_iff.mp hletters
        obtain ⟨step, hstep, -⟩ := Option.map_eq_some_iff.mp hread
        have hdot : IsRangeChar '.' := .inr (.inl rfl)
        simp only [List.forall_mem_cons]
        exact ⟨.inr (.inr (.inr (.inr hfirst))), hdot, hdot, .inr (.inr (.inr (.inr hlast))),
          isRangeChar_of_step? hstep⟩
      · cases hread
    · cases hread

end Wildcard.Range
