import Wildcard.Value
import Mathlib.Algebra.Field.Rat
import Mathlib.Algebra.Order.Ring.Rat
import Mathlib.Algebra.GroupWithZero.Units.Basic
import Mathlib.Data.Rat.Cast.Defs

/-!
# How values compare

Numbers are compared by what they stand for, so that one number has many spellings and several
kinds: `1`, `1.0`, `10e-1` and the truth value. What is not a number equals nothing, itself
included. Dates are compared by where they stand in time: a moment can be written in every time
zone, but other dates in one way only. Among the values that can be keys equality can still be
turned around and carried on; only a value need not be equal to itself.

* `Decimal.same_finite`: two finite numbers are equal if they stand for the same fraction.
* `Day.ordinal_lt_iff`: the numbers of days are in the order of the calendar.
* `Date.same_iff_eq`: dates without a time zone are equal only to themselves.
* `Value.beq_of_isKey`: when two keys are equal.
-/

namespace Wildcard

/-! ## 1. Numbers -/

namespace Decimal

/-- **Finite numbers** are equal if they stand for the same fraction. -/
theorem same_finite {m e n f : Int} {z w : Bool} :
    (finite m e z).same (finite n f w) = true ↔ (m : ℚ) * 10 ^ e = n * 10 ^ f := by
  have hten : (10 : ℚ) ≠ 0 := OfNat.ofNat_ne_zero 10
  have hshift : ∀ g : Int, min e f ≤ g →
      ((Int.pow 10 (g - min e f).toNat : Int) : ℚ) * 10 ^ min e f = 10 ^ g := by
    intro g hg
    have hpow : ((Int.pow 10 (g - min e f).toNat : Int) : ℚ) = 10 ^ (g - min e f) := by
      rw [show Int.pow 10 (g - min e f).toNat = (10 : Int) ^ (g - min e f).toNat from rfl,
        Int.cast_pow, Int.cast_ofNat, ← zpow_natCast, Int.toNat_of_nonneg (by omega)]
    rw [hpow, ← zpow_add₀ hten, Int.sub_add_cancel]
  have hlow : (10 : ℚ) ^ min e f ≠ 0 := zpow_ne_zero _ hten
  have hcast : (finite m e z).same (finite n f w) = true ↔
      (m : ℚ) * (Int.pow 10 (e - min e f).toNat : Int) =
        n * (Int.pow 10 (f - min e f).toNat : Int) := by
    rw [same, beq_iff_eq]
    exact_mod_cast Iff.rfl
  rw [hcast, ← mul_left_inj' hlow, mul_assoc, mul_assoc, hshift e (min_le_left e f),
    hshift f (min_le_right e f)]

theorem same_symm {x y : Decimal} (h : x.same y = true) : y.same x = true := by
  cases x with
  | finite m e z =>
    cases y with
    | finite n f w => exact same_finite.mpr (same_finite.mp h).symm
    | _ => cases h
  | infinite a =>
    cases y with
    | infinite b => exact beq_iff_eq.mpr (beq_iff_eq.mp h).symm
    | _ => cases h
  | undefined => cases h

theorem same_trans {x y u : Decimal} (hxy : x.same y = true) (hyu : y.same u = true) :
    x.same u = true := by
  cases y with
  | finite n f w =>
    cases x with
    | finite m e z =>
      cases u with
      | finite k g v => exact same_finite.mpr ((same_finite.mp hxy).trans (same_finite.mp hyu))
      | _ => cases hyu
    | _ => cases hxy
  | infinite b =>
    cases x with
    | infinite a =>
      cases u with
      | infinite c => exact beq_iff_eq.mpr ((beq_iff_eq.mp hxy).trans (beq_iff_eq.mp hyu))
      | _ => cases hyu
    | _ => cases hxy
  | undefined => cases hyu

end Decimal

/-! ## 2. Dates -/

theorem daysUpTo_twelve (year : Nat) : daysUpTo year 12 = if isLeap year then 366 else 365 := by
  cases hleap : isLeap year <;> simp [daysUpTo, daysIn, hleap]

theorem daysUpTo_le {year month month' : Nat} (h : month ≤ month') :
    daysUpTo year month ≤ daysUpTo year month' :=
  monotone_nat_of_le_succ (fun m => Nat.le_add_right (daysUpTo year m) _) h

/-- The years before the next one are those before a year and the year itself. -/
theorem daysBefore_succ {year : Nat} (h : 1 ≤ year) :
    daysBefore (year + 1) = daysBefore year + daysUpTo year 12 := by
  obtain ⟨y, rfl⟩ := Nat.exists_eq_add_of_le' h
  -- Each quotient grows by one in the years that its divisor divides.
  have hleap : isLeap (y + 1) = true ↔ 4 ∣ y + 1 ∧ (¬ 100 ∣ y + 1 ∨ 400 ∣ y + 1) := by
    simp [isLeap, Nat.dvd_iff_mod_eq_zero]
  have h100 : 100 ∣ y + 1 → 4 ∣ y + 1 := Dvd.dvd.trans (by decide)
  have h400 : 400 ∣ y + 1 → 100 ∣ y + 1 := Dvd.dvd.trans (by decide)
  have hle : y / 100 ≤ y / 4 := Nat.div_le_div_left (by decide) (by decide)
  simp only [daysUpTo_twelve, hleap, daysBefore, Nat.add_sub_cancel, Nat.succ_div]
  generalize y / 4 = a at hle ⊢
  generalize y / 100 = b at hle ⊢
  generalize y / 400 = c
  by_cases h4 : 4 ∣ y + 1 <;> by_cases h100' : 100 ∣ y + 1 <;> by_cases h400' : 400 ∣ y + 1 <;>
    simp_all <;> omega

theorem daysBefore_le {year year' : Nat} (hyear : 1 ≤ year) (h : year ≤ year') :
    daysBefore year ≤ daysBefore year' := by
  induction year', h using Nat.le_induction with
  | base => exact Nat.le_refl _
  | succ year' h ih => rw [daysBefore_succ (hyear.trans h)]; omega

namespace Day

/-- A day has its number among those of its month. -/
theorem ordinal_le (d : Day) : d.ordinal ≤ daysBefore d.year + daysUpTo d.year d.month := by
  have hday := d.day_range.2
  obtain ⟨m, hm⟩ := Nat.exists_eq_add_of_le' d.month_range.1
  rw [hm] at hday
  rw [ordinal, hm, daysUpTo, Nat.add_sub_cancel]
  omega

theorem ordinal_lt_of_year {a b : Day} (h : a.year < b.year) : a.ordinal < b.ordinal :=
  calc a.ordinal
    _ ≤ daysBefore a.year + daysUpTo a.year a.month := a.ordinal_le
    _ ≤ daysBefore a.year + daysUpTo a.year 12 :=
      Nat.add_le_add_left (daysUpTo_le a.month_range.2) _
    _ = daysBefore (a.year + 1) := (daysBefore_succ a.year_range.1).symm
    _ ≤ daysBefore b.year := daysBefore_le (Nat.le_add_left 1 _) h
    _ < b.ordinal := by have := b.day_range.1; unfold ordinal; omega

theorem ordinal_lt_of_month {a b : Day} (hyear : a.year = b.year) (h : a.month < b.month) :
    a.ordinal < b.ordinal :=
  calc a.ordinal
    _ ≤ daysBefore a.year + daysUpTo a.year a.month := a.ordinal_le
    _ = daysBefore b.year + daysUpTo b.year a.month := by rw [hyear]
    _ ≤ daysBefore b.year + daysUpTo b.year (b.month - 1) :=
      Nat.add_le_add_left (daysUpTo_le (Nat.le_sub_one_of_lt h)) _
    _ < b.ordinal := by have := b.day_range.1; unfold ordinal; omega

theorem ordinal_lt_of_day {a b : Day} (hyear : a.year = b.year) (hmonth : a.month = b.month)
    (h : a.day < b.day) : a.ordinal < b.ordinal := by
  unfold ordinal
  rw [hyear, hmonth]
  omega

/-- **The numbers of days** are in the order of the calendar: by year, then by month, then by
    day. -/
theorem ordinal_lt_iff {a b : Day} :
    a.ordinal < b.ordinal ↔ a.year < b.year ∨
      a.year = b.year ∧ (a.month < b.month ∨ a.month = b.month ∧ a.day < b.day) := by
  constructor
  · intro h
    rcases Nat.lt_trichotomy a.year b.year with hyear | hyear | hyear
    · exact .inl hyear
    · refine .inr ⟨hyear, ?_⟩
      rcases Nat.lt_trichotomy a.month b.month with hmonth | hmonth | hmonth
      · exact .inl hmonth
      · refine .inr ⟨hmonth, Nat.lt_of_not_le fun hday => ?_⟩
        rcases Nat.eq_or_lt_of_le hday with hday | hday
        · exact absurd h (by unfold ordinal; rw [hyear, hmonth, hday]; exact Nat.lt_irrefl _)
        · exact absurd h (Nat.lt_asymm (ordinal_lt_of_day hyear.symm hmonth.symm hday))
      · exact absurd h (Nat.lt_asymm (ordinal_lt_of_month hyear.symm hmonth))
    · exact absurd h (Nat.lt_asymm (ordinal_lt_of_year hyear))
  · rintro (hyear | ⟨hyear, hmonth | ⟨hmonth, hday⟩⟩)
    · exact ordinal_lt_of_year hyear
    · exact ordinal_lt_of_month hyear hmonth
    · exact ordinal_lt_of_day hyear hmonth hday

/-- Days of one number are one day. -/
theorem ordinal_injective {a b : Day} (h : a.ordinal = b.ordinal) : a = b := by
  have hab : ¬ a.ordinal < b.ordinal := by omega
  have hba : ¬ b.ordinal < a.ordinal := by omega
  rw [ordinal_lt_iff] at hab hba
  obtain ⟨year, month, day, _, _, _⟩ := a
  obtain ⟨year', month', day', _, _, _⟩ := b
  dsimp only at hab hba
  obtain ⟨rfl, rfl, rfl⟩ : year = year' ∧ month = month' ∧ day = day' := by omega
  rfl

end Day

namespace TimeOfDay

theorem microseconds_lt (t : TimeOfDay) : t.microseconds < 86400000000 := by
  obtain ⟨hour, minute, second, microsecond, _, _, _, _⟩ := t
  simp only [microseconds]
  omega

theorem microseconds_injective {t u : TimeOfDay} (h : t.microseconds = u.microseconds) :
    t = u := by
  obtain ⟨hour, minute, second, microsecond, _, _, _, _⟩ := t
  obtain ⟨hour', minute', second', microsecond', _, _, _, _⟩ := u
  simp only [microseconds] at h
  obtain ⟨rfl, rfl, rfl, rfl⟩ :
      hour = hour' ∧ minute = minute' ∧ second = second' ∧ microsecond = microsecond' := by omega
  rfl

end TimeOfDay

namespace Date

theorem same_iff {a b : Date} : a.same b = true ↔ a.form = b.form ∧ a.instant = b.instant := by
  simp [same]

/-- **Dates without a time zone** are equal only to themselves. -/
theorem same_iff_eq {a b : Date} (h : a.form ≠ .zonedMoment) : a.same b = true ↔ a = b := by
  refine same_iff.trans ⟨fun ⟨hform, hinstant⟩ => ?_, fun hab => hab ▸ ⟨rfl, rfl⟩⟩
  cases a with
  | day d =>
    cases b with
    | day e =>
      simp only [instant] at hinstant
      rw [Day.ordinal_injective (a := d) (b := e) (by omega)]
    | _ => cases hform
  | moment d t =>
    cases b with
    | moment e u =>
      have ht := t.microseconds_lt
      have hu := u.microseconds_lt
      simp only [instant] at hinstant
      rw [Day.ordinal_injective (a := d) (b := e) (by omega),
        TimeOfDay.microseconds_injective (t := t) (u := u) (by omega)]
    | _ => cases hform
  | zonedMoment d t z => exact absurd rfl h

end Date

/-! ## 3. Keys -/

namespace Value

/-- **A key equals** what it is, unless it is a date or counts as a number; then it equals what
    stands at the same place in time, or counts as the same number. -/
theorem beq_of_isKey {a b : Value} (ha : a.isKey = true) :
    (a == b) = true ↔ (a = b ∧ a.number? = none) ∨
      (∃ d e, a = .date d ∧ b = .date e ∧ d.same e = true) ∨
      ∃ x y, a.number? = some x ∧ b.number? = some y ∧ x.same y = true := by
  show same a b = true ↔ _
  cases a with
  | null => cases b <;> simp [same, number?]
  | date s =>
    cases b with
    | date e =>
      have hself : s = e → s.same e = true := fun h => Date.same_iff.mpr (h ▸ ⟨rfl, rfl⟩)
      simpa [same, number?] using hself
    | _ => simp [same, number?]
  | text s => cases b <;> simp [same, number?]
  | bool p => cases b <;> simp [same, number?]
  | int p => cases b <;> simp [same, number?]
  | decimal p => cases b <;> simp [same, number?]
  | list items => cases ha
  | mapping entries => cases ha

/-- Values that can be keys. -/
def Key : Type := { v : Value // v.isKey = true }

namespace Key

instance : BEq Key := ⟨fun a b => a.1 == b.1⟩

instance : PartialEquivBEq Key where
  symm := by
    rintro ⟨a, ha⟩ ⟨b, hb⟩ h
    refine (beq_of_isKey hb).mpr ?_
    rcases (beq_of_isKey ha).mp h with ⟨rfl, hnone⟩ | ⟨d, e, hd, he, hde⟩ | ⟨x, y, hx, hy, hxy⟩
    · exact .inl ⟨rfl, hnone⟩
    · obtain ⟨hform, hinstant⟩ := Date.same_iff.mp hde
      exact .inr (.inl ⟨e, d, he, hd, Date.same_iff.mpr ⟨hform.symm, hinstant.symm⟩⟩)
    · exact .inr (.inr ⟨y, x, hy, hx, Decimal.same_symm hxy⟩)
  trans := by
    rintro ⟨a, ha⟩ ⟨b, hb⟩ ⟨c, hc⟩ hab hbc
    refine (beq_of_isKey ha).mpr ?_
    rcases (beq_of_isKey ha).mp hab with ⟨rfl, -⟩ | ⟨d, e, rfl, rfl, hde⟩ | ⟨x, y, hx, hy, hxy⟩
    · exact (beq_of_isKey hb).mp hbc
    · rcases (beq_of_isKey hb).mp hbc with ⟨rfl, -⟩ | ⟨e', f, he, hf, hef⟩ | ⟨y, u, hy, hu, hyu⟩
      · exact .inr (.inl ⟨d, e, rfl, rfl, hde⟩)
      · cases he
        obtain ⟨hform, hinstant⟩ := Date.same_iff.mp hde
        obtain ⟨hform', hinstant'⟩ := Date.same_iff.mp hef
        exact .inr (.inl ⟨d, f, rfl, hf,
          Date.same_iff.mpr ⟨hform.trans hform', hinstant.trans hinstant'⟩⟩)
      · cases hy
    · rcases (beq_of_isKey hb).mp hbc with ⟨rfl, hnone⟩ | ⟨d, e, rfl, -⟩ | ⟨y', u, hy', hu, hyu⟩
      · rw [hy] at hnone
        cases hnone
      · cases hy
      · rw [hy] at hy'
        cases hy'
        exact .inr (.inr ⟨x, u, hx, hu, Decimal.same_trans hxy hyu⟩)

end Key

end Value

end Wildcard
