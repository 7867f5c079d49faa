import Mathlib.Algebra.Group.Nat.Defs
import Mathlib.Data.List.Basic
import Mathlib.Data.List.Induction
import Wildcard.Proofs.Glob.Range

/-!
# The integers of a range

A range of integers is read as it is written, and its values are those of an arithmetic progression
that starts at the first endpoint and never passes the last one. With a leading zero at one of the
endpoints all values are filled up to the same length, which is enough for each of them, and they
read as what they were before.

* `read?_written`: reading finds the endpoints and the step that were written.
* `between`, `valueAt_last`, `reverse_values`: the progression.
* `spells_filled`, `length_filled`: how its values are spelled.
* `expand?_written`: what a range of integers stands for.
-/

namespace Wildcard.Range

open Wildcard.Text

/-! ## 1. Reading what is written -/

/-- An integer as it may be written: not without digits, and with no more than may be. -/
structure Numeral.IsWritten (n : Numeral) : Prop where
  filled : n.digits ≠ []
  bounded : n.digits.length ≤ maxDigits
  digits : ∀ c ∈ n.digits, isDigit c = true

/-- How a range of integers is written. -/
def written (first last : Numeral) (step : Option Numeral) : List Char :=
  first.text ++ '.' :: '.' :: (last.text ++ step.elim [] fun s => '.' :: '.' :: s.text)

/-- Reads the digits behind a sign, or where there is none. -/
def Numeral.digits? (negative : Bool) (cs : List Char) : Option (Numeral × List Char) :=
  if cs.takeWhile isDigit = [] ∨ (cs.takeWhile isDigit).length > maxDigits then none
  else some (⟨negative, cs.takeWhile isDigit⟩, cs.dropWhile isDigit)

theorem Numeral.read?_minus (cs : List Char) : read? ('-' :: cs) = digits? true cs := rfl

theorem Numeral.read?_of_ne {cs : List Char} (h : cs.head? ≠ some '-') :
    read? cs = digits? false cs := by
  cases cs with
  | nil => rfl
  | cons c cs =>
    unfold read?
    split
    rename_i heq
    split at heq
    · rename_i hcs
      exact absurd (congrArg List.head? hcs) h
    · cases heq
      rfl

theorem Numeral.digits?_append {negative : Bool} {ds rest : List Char}
    (h : (⟨negative, ds⟩ : Numeral).IsWritten) (hrest : ∀ c ∈ rest.head?, isDigit c = false) :
    digits? negative (ds ++ rest) = some (⟨negative, ds⟩, rest) := by
  have htake : (ds ++ rest).takeWhile isDigit = ds := by
    rw [List.takeWhile_append_of_pos h.digits]
    cases rest with
    | nil => rw [List.takeWhile_nil, List.append_nil]
    | cons c rest =>
      rw [List.takeWhile_cons_of_neg (by rw [hrest c rfl]; exact Bool.false_ne_true), List.append_nil]
  have hdrop : (ds ++ rest).dropWhile isDigit = rest := by
    rw [List.dropWhile_append_of_pos h.digits]
    cases rest with
    | nil => rfl
    | cons c rest =>
      exact List.dropWhile_cons_of_neg (by rw [hrest c rfl]; exact Bool.false_ne_true)
  rw [digits?, htake, hdrop, if_neg (not_or.mpr ⟨h.filled, Nat.not_lt.mpr h.bounded⟩)]

/-- An integer is read as it is written where no digit follows. -/
theorem Numeral.read?_text {n : Numeral} (h : n.IsWritten) {rest : List Char}
    (hrest : ∀ c ∈ rest.head?, isDigit c = false) : read? (n.text ++ rest) = some (n, rest) := by
  obtain ⟨negative, ds⟩ := n
  cases negative with
  | true => exact (read?_minus (ds ++ rest)).trans (digits?_append h hrest)
  | false =>
    refine (read?_of_ne fun hsign => ?_).trans (digits?_append h hrest)
    -- no minus sign in front: it is no digit
    cases ds with
    | nil => exact h.filled rfl
    | cons c ds =>
      cases hsign
      exact absurd (h.digits '-' List.mem_cons_self) (by decide)

/-- What may stand behind a range: nothing, or one line feed. -/
def IsEnding (cs : List Char) : Prop := cs = [] ∨ cs = ['\n']

/-- How the step of a range is written, if there is one. -/
def stepText (step : Option Numeral) : List Char := step.elim [] fun s => '.' :: '.' :: s.text

theorem IsEnding.head? {cs : List Char} (h : IsEnding cs) : ∀ c ∈ cs.head?, isDigit c = false := by
  rintro c hc
  rcases h with rfl | rfl
  · cases hc
  · cases hc
    decide

theorem step?_written {step : Option Numeral} (h : ∀ s ∈ step, s.IsWritten) {ending : List Char}
    (hending : IsEnding ending) : step? (stepText step ++ ending) = some step := by
  cases step with
  | none => exact if_pos hending
  | some s =>
    have hread : Numeral.read? (s.text ++ ending) = some (s, ending) :=
      Numeral.read?_text (h s rfl) hending.head?
    have hmore : ¬ ('.' :: '.' :: (s.text ++ ending) = [] ∨
        '.' :: '.' :: (s.text ++ ending) = ['\n']) := by
      simp
    show step? ('.' :: '.' :: (s.text ++ ending)) = some (some s)
    rw [step?, if_neg hmore]
    simp only [dots?, hread]
    exact if_pos hending

/-- **A range of integers is read** as it is written, also with a line feed behind it. -/
theorem read?_written {first last : Numeral} {step : Option Numeral} (hfirst : first.IsWritten)
    (hlast : last.IsWritten) (hstep : ∀ s ∈ step, s.IsWritten) {ending : List Char}
    (hending : IsEnding ending) :
    Spelled.read? (written first last step ++ ending) = some (.numbers first last step) := by
  have hdot : ∀ rest, ∀ c ∈ ('.' :: rest : List Char).head?, isDigit c = false := by
    intro rest c hc
    cases hc
    decide
  have hbehind : ∀ c ∈ (stepText step ++ ending).head?, isDigit c = false := by
    cases step with
    | none => exact hending.head?
    | some s => exact hdot _
  have hwritten : written first last step ++ ending =
      first.text ++ '.' :: '.' :: (last.text ++ (stepText step ++ ending)) := by
    simp [written, stepText]
  have hnumbers : numbers? (written first last step ++ ending) =
      some (.numbers first last step) := by
    rw [numbers?, hwritten, Numeral.read?_text hfirst (hdot _)]
    simp only [dots?, Option.bind_some, Numeral.read?_text hlast hbehind,
      step?_written hstep hending, Option.map_some]
  rw [Spelled.read?, hnumbers]
  rfl

/-! ## 2. The progression -/

/-- The value at some place of a progression from one integer towards another. -/
def valueAt (first last : Int) (step i : Nat) : Int :=
  if first ≤ last then first + (i * step : Nat) else first - (i * step : Nat)

theorem values_eq (first last : Int) (step : Nat) :
    values first last step = (List.range (count first last step)).map (valueAt first last step) :=
  rfl

theorem valueAt_zero (first last : Int) (step : Nat) : valueAt first last step 0 = first := by
  simp [valueAt]

section Progression

variable {first last : Int} {step i : Nat}

/-- **A progression never passes its end.** -/
theorem between (hi : i < count first last step) :
    min first last ≤ valueAt first last step i ∧ valueAt first last step i ≤ max first last :=
  mem_values_bounds (List.mem_map.mpr ⟨i, List.mem_range.mpr hi, rfl⟩)

/-- It ends where it should if the step divides the distance. -/
theorem valueAt_last :
    valueAt first last step (count first last step - 1) = last ↔ step ∣ (first - last).natAbs := by
  rw [Nat.dvd_iff_div_mul_eq, count, Nat.add_sub_cancel, valueAt]
  split
  · constructor <;> intro h <;> omega
  · constructor <;> intro h <;> omega

theorem count_comm (first last : Int) (step : Nat) :
    count last first step = count first last step := by
  rw [count, count, ← Int.natAbs_neg, Int.neg_sub]

/-- **From the other end** the same values come in the opposite order if the step divides the
    distance. -/
theorem reverse_values (hdvd : step ∣ (first - last).natAbs) :
    values last first step = (values first last step).reverse := by
  have hdistance := Nat.div_mul_cancel hdvd
  rw [values_eq, values_eq, count_comm, ← List.map_reverse]
  refine List.ext_getElem (by simp) fun i hi _ => ?_
  rw [List.length_map, List.length_range, count] at hi
  have hrest : ((first - last).natAbs / step - i) * step =
      (first - last).natAbs - i * step := by rw [Nat.sub_mul, hdistance]
  have hle : i * step ≤ (first - last).natAbs := by
    rw [← hdistance]
    exact Nat.mul_le_mul_right step (Nat.le_of_lt_succ hi)
  have hplace : count first last step - 1 - i = (first - last).natAbs / step - i := by
    rw [count]
    omega
  simp only [List.getElem_map, List.getElem_range, List.getElem_reverse, List.length_range, hplace,
    valueAt, hrest]
  split <;> split <;> omega

end Progression

/-! ## 3. How the values are spelled -/

/-- How an integer may be spelled: a minus sign or none, and digits of ASCII. -/
def Spells (cs : List Char) (v : Int) : Prop :=
  ∃ n : Numeral, n.digits ≠ [] ∧ (∀ c ∈ n.digits, c.isDigit = true) ∧ n.text = cs ∧ n.value = v

theorem digit?_of_isDigit {c : Char} (h : c.isDigit = true) : digit? c = some (c.toNat - 48) := by
  have hbounds : 48 ≤ c.toNat ∧ c.toNat ≤ 57 := Char.isDigit_iff_toNat.mp h
  rw [digit?, zeros, List.find?_cons_of_pos (by simpa using hbounds)]
  rfl

theorem numberOf_of_isDigit {cs : List Char} (h : ∀ c ∈ cs, c.isDigit = true) :
    numberOf cs = Nat.ofDigitChars 10 cs 0 := by
  rw [numberOf, Nat.ofDigitChars_eq_foldl]
  refine List.foldl_ext _ _ _ fun n c hc => ?_
  rw [digit?_of_isDigit (h c hc)]
  rfl

theorem numberOf_lt (cs : List Char) : numberOf cs < 10 ^ cs.length := by
  induction cs using List.reverseRecOn with
  | nil => exact Nat.one_pos
  | append_singleton cs c ih =>
    have hdigit : (digit? c).getD 0 < 10 := by
      cases hc : digit? c with
      | none => exact Nat.succ_pos 9
      | some v => exact digit?_lt hc
    have hlast : numberOf (cs ++ [c]) = 10 * numberOf cs + (digit? c).getD 0 := by
      rw [numberOf, List.foldl_append]
      rfl
    rw [hlast, List.length_append, List.length_singleton, Nat.pow_succ]
    omega

/-- Zeros in front change nothing about a number. -/
theorem numberOf_zeros (k n : Nat) : numberOf (List.replicate k '0' ++ decimal n) = n := by
  rw [numberOf_of_isDigit isDigit_of_mem_zeros, Nat.ofDigitChars_append, Nat.ofDigitChars_replicate_zero,
    Nat.mul_zero, decimal, Nat.ofDigitChars_ten_toDigits]

/-- **A value reads as what it was**, however far it is filled up. -/
theorem spells_filled (width : Nat) (v : Int) : Spells (filled width v) v := by
  have hfilled (k : Nat) : List.replicate k '0' ++ decimal v.natAbs ≠ [] :=
    List.append_ne_nil_of_right_ne_nil _ Nat.toDigits_ne_nil
  unfold filled
  simp only
  split
  · refine ⟨⟨true, _⟩, hfilled _, isDigit_of_mem_zeros, rfl, ?_⟩
    rw [Numeral.value, if_pos rfl, numberOf_zeros]
    omega
  · refine ⟨⟨false, _⟩, hfilled _, isDigit_of_mem_zeros, rfl, ?_⟩
    rw [Numeral.value, if_neg Bool.false_ne_true, numberOf_zeros]
    omega

/-- Without a width a value has its plain decimal form. -/
theorem filled_zero (v : Int) : filled 0 v = (toString v).toList := by
  unfold filled
  simp only [Nat.zero_sub, List.replicate_zero, List.nil_append, Int.toString_eq_repr,
    Int.repr_eq_if]
  split
  · rw [if_neg (by omega), Nat.repr_eq_ofList_toDigits, String.toList_append,
      String.toList_ofList, String.toList_ofList, decimal, show v.natAbs = (-v).toNat by omega]
    rfl
  · rw [if_pos (by omega), Nat.repr_eq_ofList_toDigits, String.toList_ofList, decimal,
      show v.natAbs = v.toNat by omega]

theorem length_filled (width : Nat) (v : Int) :
    (filled width v).length = max width (filled 0 v).length := by
  unfold filled
  simp only
  split
  · simp only [List.length_cons, List.length_append, List.length_replicate]
    omega
  · simp only [List.length_append, List.length_replicate]
    omega

theorem length_decimal_le {v : Nat} {ds : List Char} (hle : v ≤ numberOf ds) (hds : ds ≠ []) :
    (decimal v).length ≤ ds.length :=
  (Nat.length_toDigits_le_iff (by decide) (List.length_pos_iff.mpr hds)).mpr
    (Nat.lt_of_le_of_lt hle (numberOf_lt ds))

/-- A value between zero and an integer needs no more characters than this integer. -/
theorem length_filled_zero_le {n : Numeral} (h : n.IsWritten) {v : Int}
    (hv : n.value ≤ v ∧ v < 0 ∨ 0 ≤ v ∧ v ≤ n.value) :
    (filled 0 v).length ≤ n.text.length := by
  obtain ⟨negative, ds⟩ := n
  simp only [Numeral.value] at hv
  have hle : v.natAbs ≤ numberOf ds := by
    split at hv <;> omega
  have hlength := length_decimal_le hle h.filled
  unfold filled Numeral.text
  simp only [Nat.zero_sub, List.replicate_zero, List.nil_append]
  split
  · -- below zero is only what is written with a sign
    cases negative with
    | true => exact Nat.succ_le_succ hlength
    | false =>
      simp only [Bool.false_eq_true, if_false] at hv
      omega
  · split
    · exact Nat.le_succ_of_le hlength
    · exact hlength

/-- A value between two integers needs no more characters than the longer one of them. -/
theorem length_filled_zero_le_max {first last : Numeral} (hfirst : first.IsWritten)
    (hlast : last.IsWritten) {v : Int}
    (hv : min first.value last.value ≤ v ∧ v ≤ max first.value last.value) :
    (filled 0 v).length ≤ max first.text.length last.text.length := by
  have hside : (first.value ≤ v ∧ v < 0 ∨ 0 ≤ v ∧ v ≤ first.value) ∨
      (last.value ≤ v ∧ v < 0 ∨ 0 ≤ v ∧ v ≤ last.value) := by omega
  rcases hside with h | h
  · exact Nat.le_trans (length_filled_zero_le hfirst h) (Nat.le_max_left _ _)
  · exact Nat.le_trans (length_filled_zero_le hlast h) (Nat.le_max_right _ _)

/-! ## 4. Ranges of integers -/

theorem stepLength_eq (step : Option Numeral) :
    stepLength step = max 1 (step.elim 0 (·.value.natAbs)) := by
  cases step with
  | none => rfl
  | some s => rfl

/-- The number of characters that the values of a range have at least. -/
def width (first last : Numeral) : Nat :=
  if first.isPadded || last.isPadded then max first.text.length last.text.length else 0

theorem expand?_eq {first last : Numeral} {step : Option Numeral} (hfirst : first.IsWritten)
    (hlast : last.IsWritten) (hstep : ∀ s ∈ step, s.IsWritten) :
    expand? (written first last step) =
      if count first.value last.value (stepLength step) > maxValues then none
      else some ((values first.value last.value (stepLength step)).map
        (filled (width first last))) := by
  have hread := read?_written hfirst hlast hstep (.inl rfl)
  rw [List.append_nil] at hread
  rw [expand?, hread]
  rfl

theorem width_comm (first last : Numeral) : width last first = width first last := by
  rw [width, width, Bool.or_comm, Nat.max_comm]

/-- **A range of integers**, with perhaps a step, stands for at most so many values. They begin
    with its first endpoint, never pass its last one, and end there if the step divides the
    distance. Each is spelled as itself: with as many characters as the longer one of the endpoints
    if one of them has a leading zero, and plainly otherwise. If the step divides the distance, the
    range from the last endpoint to the first one stands for the same in the opposite order. -/
theorem expand?_written {first last : Numeral} {step : Option Numeral} (hfirst : first.IsWritten)
    (hlast : last.IsWritten) (hstep : ∀ s ∈ step, s.IsWritten) :
    let a := first.value
    let b := last.value
    let d := max 1 (step.elim 0 (·.value.natAbs))
    let n := (a - b).natAbs / d + 1
    (expand? (written first last step) = none ↔ maxValues < n) ∧
    (n ≤ maxValues → ∃ vs, expand? (written first last step) = some vs ∧ vs.length = n ∧
      ∀ i (hi : i < vs.length),
        let v := if a ≤ b then a + (i * d : Nat) else a - (i * d : Nat)
        Spells vs[i] v ∧ (i = 0 → v = a) ∧ (min a b ≤ v ∧ v ≤ max a b) ∧
        (i = n - 1 → (v = b ↔ d ∣ (a - b).natAbs)) ∧
        (if first.isPadded || last.isPadded
          then vs[i].length = max first.text.length last.text.length
          else vs[i] = (toString v).toList)) ∧
    (d ∣ (a - b).natAbs → expand? (written last first step) =
      (expand? (written first last step)).map List.reverse) := by
  intro a b d n
  have hexpand := expand?_eq hfirst hlast hstep
  have hexpand' := expand?_eq hlast hfirst hstep
  rw [stepLength_eq] at hexpand hexpand'
  refine ⟨?_, ?_, ?_⟩
  · rw [hexpand]
    split
    · exact iff_of_true rfl ‹_›
    · exact iff_of_false (Option.some_ne_none _) ‹_›
  · intro hn
    replace hexpand := hexpand.trans (if_neg (Nat.not_lt.mpr hn))
    have hlength : ((values a b d).map (filled (width first last))).length = n := by
      rw [List.length_map, values_eq, List.length_map, List.length_range]
      rfl
    refine ⟨_, hexpand, hlength, ?_⟩
    intro i hi v
    have hcount : i < count a b d := Nat.lt_of_lt_of_eq hi hlength
    have hbetween : min a b ≤ v ∧ v ≤ max a b := between hcount
    have htext : ((values a b d).map (filled (width first last)))[i] =
        filled (width first last) v := by
      simp only [values_eq, List.getElem_map, List.getElem_range]
      rfl
    rw [htext]
    refine ⟨spells_filled _ _, ?_, hbetween, ?_, ?_⟩
    · rintro rfl
      exact valueAt_zero a b d
    · rintro rfl
      exact valueAt_last
    · rw [width]
      split
      · rw [length_filled]
        exact Nat.max_eq_left (length_filled_zero_le_max hfirst hlast hbetween)
      · exact filled_zero v
  · intro hdvd
    rw [hexpand, hexpand', width_comm, count_comm, reverse_values hdvd]
    split
    · rfl
    · rw [List.map_reverse]
      rfl

/-- Down past zero, with a leading zero at the first endpoint and a sign at the step. -/
theorem expand?_written_falling :
    (∃ vs, expand? "08..-1..-3".toList = some vs ∧ vs.length = 4 ∧
      ∀ i (hi : i < vs.length), Spells vs[i] (8 - (i * 3 : Nat)) ∧ vs[i].length = 2) ∧
    expand? "-1..08..-3".toList = (expand? "08..-1..-3".toList).map List.reverse := by
  have hfirst : (⟨false, ['0', '8']⟩ : Numeral).IsWritten :=
    ⟨by decide, by decide, List.all_eq_true.mp rfl⟩
  have hlast : (⟨true, ['1']⟩ : Numeral).IsWritten := ⟨by decide, by decide, List.all_eq_true.mp rfl⟩
  have hstep : ∀ s ∈ some (⟨true, ['3']⟩ : Numeral), s.IsWritten := by
    rintro _ ⟨⟩
    exact ⟨by decide, by decide, List.all_eq_true.mp rfl⟩
  obtain ⟨-, hvalues, hswapped⟩ := expand?_written hfirst hlast hstep
  obtain ⟨vs, hvs, hlength, hspelled⟩ := hvalues (by decide)
  refine ⟨⟨vs, hvs, hlength, fun i hi => ?_⟩, hswapped (by decide)⟩
  obtain ⟨hreads, -, -, -, haligned⟩ := hspelled i hi
  exact ⟨hreads, haligned⟩

end Wildcard.Range
