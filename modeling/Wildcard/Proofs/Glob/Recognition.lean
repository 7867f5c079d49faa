import Wildcard.Proofs.Glob.Negation
import Wildcard.Proofs.Glob.Progression

/-!
# Which texts are ranges

The contents of braces stand for other texts if they are a range, and for themselves otherwise. A
range is two integers or two letters with two dots between them, and perhaps two more dots and a
step; and an integer is a minus sign or none, and a few decimal digits. Nothing may be left over
behind that but a single line feed.

* `Numeral.of_read?`, `of_step?`, `of_numbers?`, `of_letters?`: whatever is read is written so.
* `Spelled.read?_eq_some_iff`: the texts that are read as a range, exactly.
* `isSome_expand?_iff`: the texts that stand for others.
* `expand?_iff_isRange`: what braces stand for; `expand?_line_feed`: a line feed counts for nothing.
-/

namespace Wildcard

namespace Range

open Wildcard.Text

variable {cs rest : List Char} {step : Option Numeral}

/-! ## 1. Integers and steps -/

theorem Numeral.of_digits? {negative : Bool} {n : Numeral}
    (h : digits? negative cs = some (n, rest)) :
    n.IsWritten ∧ n.negative = negative ∧ cs = n.digits ++ rest := by
  unfold digits? at h
  split at h
  · cases h
  · rename_i hno
    obtain ⟨hfilled, hbounded⟩ := not_or.mp hno
    cases h
    exact ⟨⟨hfilled, Nat.not_lt.mp hbounded, List.all_eq_true.mp List.all_takeWhile⟩, rfl,
      List.takeWhile_append_dropWhile.symm⟩

/-- **An integer that is read is written so.** -/
theorem Numeral.of_read? {n : Numeral} (h : read? cs = some (n, rest)) :
    n.IsWritten ∧ cs = n.text ++ rest := by
  by_cases hminus : cs.head? = some '-'
  · obtain ⟨cs, rfl⟩ := List.head?_eq_some_iff.mp hminus
    rw [read?_minus] at h
    obtain ⟨hwritten, hsign, rfl⟩ := of_digits? h
    refine ⟨hwritten, ?_⟩
    rw [text, hsign]
    rfl
  · rw [read?_of_ne hminus] at h
    obtain ⟨hwritten, hsign, rfl⟩ := of_digits? h
    refine ⟨hwritten, ?_⟩
    rw [text, hsign]
    rfl

theorem of_dots? (h : dots? cs = some rest) : cs = '.' :: '.' :: rest := by
  unfold dots? at h
  split at h
  · cases h
    rfl
  · cases h

/-- A step that is read is written so. -/
theorem of_step? (h : step? cs = some step) :
    (∀ s ∈ step, s.IsWritten) ∧ ∃ ending, IsEnding ending ∧ cs = stepText step ++ ending := by
  unfold step? at h
  split at h
  · rename_i hending
    cases h
    exact ⟨nofun, cs, hending, rfl⟩
  · split at h
    · cases h
    · rename_i behind hdots
      split at h
      · rename_i n ending hread
        obtain ⟨hwritten, hbehind⟩ := Numeral.of_read? hread
        split at h
        · rename_i hending
          cases h
          refine ⟨fun s hs => ?_, ending, hending, ?_⟩
          · cases hs
            exact hwritten
          · rw [of_dots? hdots, hbehind]
            rfl
        · cases h
      · cases h

/-! ## 2. Ranges -/

/-- How a range of letters is written. -/
def writtenLetters (first last : Char) (step : Option Numeral) : List Char :=
  first :: '.' :: '.' :: last :: stepText step

namespace Spelled

/-- How a range is written. -/
def text : Spelled → List Char
  | numbers first last step => written first last step
  | letters first last step => writtenLetters first last step

/-- A range as it may be written. -/
def IsWritten : Spelled → Prop
  | numbers first last step => first.IsWritten ∧ last.IsWritten ∧ ∀ s ∈ step, s.IsWritten
  | letters first last step =>
    isLetter first = true ∧ isLetter last = true ∧ ∀ s ∈ step, s.IsWritten

end Spelled

/-- **A range of integers that is read is written so.** -/
theorem of_numbers? {s : Spelled} (h : numbers? cs = some s) :
    s.IsWritten ∧ ∃ ending, IsEnding ending ∧ cs = s.text ++ ending := by
  unfold numbers? at h
  split at h
  · cases h
  · rename_i first behind hfirst
    split at h
    · cases h
    · rename_i last behind' hlast
      obtain ⟨step, hstep, rfl⟩ := Option.map_eq_some_iff.mp h
      obtain ⟨between, hdots, hlast⟩ := Option.bind_eq_some_iff.mp hlast
      obtain ⟨hwritten, rfl⟩ := Numeral.of_read? hfirst
      obtain ⟨hwritten', rfl⟩ := Numeral.of_read? hlast
      obtain ⟨hsteps, ending, hending, rfl⟩ := of_step? hstep
      refine ⟨⟨hwritten, hwritten', hsteps⟩, ending, hending, ?_⟩
      rw [of_dots? hdots]
      simp [Spelled.text, written, stepText]

/-- **A range of letters that is read is written so.** -/
theorem of_letters? {s : Spelled} (h : letters? cs = some s) :
    s.IsWritten ∧ ∃ ending, IsEnding ending ∧ cs = s.text ++ ending := by
  unfold letters? at h
  split at h
  · split at h
    · rename_i first last behind hletters
      obtain ⟨hfirst, hlast⟩ := Bool.and_eq_true_iff.mp hletters
      obtain ⟨step, hstep, rfl⟩ := Option.map_eq_some_iff.mp h
      obtain ⟨hsteps, ending, hending, rfl⟩ := of_step? hstep
      exact ⟨⟨hfirst, hlast, hsteps⟩, ending, hending, rfl⟩
    · cases h
  · cases h

/-- A letter is no digit of any script. -/
theorem isDigit_of_isLetter {c : Char} (h : isLetter c = true) : isDigit c = false := by
  have hzeros : ∀ z ∈ zeros, z = 48 ∨ 122 < z := by decide
  obtain ⟨hlow, hhigh⟩ := letter_bounds h
  rw [← Bool.not_eq_true, isDigit, digit?, Option.isSome_map, List.find?_isSome]
  rintro ⟨z, hz, hin⟩
  obtain ⟨hle, hle'⟩ := Bool.and_eq_true_iff.mp hin
  have := of_decide_eq_true hle
  have := of_decide_eq_true hle'
  rcases hzeros z hz with rfl | hz <;> omega

/-- No integer begins with a letter. -/
theorem Numeral.read?_of_isLetter {c : Char} (h : isLetter c = true) (rest : List Char) :
    read? (c :: rest) = none := by
  have hminus : (c :: rest).head? ≠ some '-' := by
    rintro ⟨⟩
    exact absurd h (by decide)
  rw [read?_of_ne hminus, digits?, List.takeWhile_cons_of_neg (by simp [isDigit_of_isLetter h])]
  exact if_pos (.inl rfl)

/-- **A range of letters is read** as it is written, also with a line feed behind it. -/
theorem read?_writtenLetters {first last : Char} (hfirst : isLetter first = true)
    (hlast : isLetter last = true) (hstep : ∀ s ∈ step, s.IsWritten) {ending : List Char}
    (hending : IsEnding ending) :
    Spelled.read? (writtenLetters first last step ++ ending) = some (.letters first last step) := by
  have hnone : numbers? (writtenLetters first last step ++ ending) = none := by
    rw [numbers?, writtenLetters, List.cons_append, Numeral.read?_of_isLetter hfirst]
  have hletters : letters? (writtenLetters first last step ++ ending) =
      some (.letters first last step) := by
    simp only [writtenLetters, List.cons_append, letters?, hfirst, hlast, Bool.and_self, if_true,
      step?_written hstep hending, Option.map_some]
  rw [Spelled.read?, hnone]
  exact hletters

/-- **A text is read as a range** exactly if it is one, perhaps with a line feed behind it. -/
theorem Spelled.read?_eq_some_iff {s : Spelled} :
    Spelled.read? cs = some s ↔
      s.IsWritten ∧ ∃ ending, IsEnding ending ∧ cs = s.text ++ ending := by
  constructor
  · intro h
    unfold Spelled.read? at h
    cases hnumbers : numbers? cs with
    | some s' =>
      rw [hnumbers] at h
      cases h
      exact of_numbers? hnumbers
    | none =>
      rw [hnumbers] at h
      exact of_letters? h
  · rintro ⟨hwritten, ending, hending, rfl⟩
    cases s with
    | numbers first last step =>
      exact read?_written hwritten.1 hwritten.2.1 hwritten.2.2 hending
    | letters first last step =>
      exact read?_writtenLetters hwritten.1 hwritten.2.1 hwritten.2.2 hending

/-! ## 3. The texts that stand for others -/

/-- The texts that are ranges: of so many integers at most, or of letters. -/
inductive IsRange : List Char → Prop
  | numbers {first last : Numeral} {step : Option Numeral} : first.IsWritten → last.IsWritten →
      (∀ s ∈ step, s.IsWritten) →
      (first.value - last.value).natAbs / max 1 (step.elim 0 (·.value.natAbs)) + 1 ≤ maxValues →
        IsRange (written first last step)
  | letters {first last : Char} {step : Option Numeral} : isLetter first = true →
      isLetter last = true → (∀ s ∈ step, s.IsWritten) → IsRange (writtenLetters first last step)

theorem Numeral.IsWritten.not_mem {n : Numeral} (h : n.IsWritten) : '\n' ∉ n.text := by
  have hdigits : '\n' ∉ n.digits := fun hmem => absurd (h.digits _ hmem) (by decide)
  unfold Numeral.text
  split
  · simpa using hdigits
  · exact hdigits

/-- No range holds a line feed. -/
theorem IsRange.not_mem (h : IsRange cs) : '\n' ∉ cs := by
  have hletter {c : Char} (hc : isLetter c = true) : '\n' ≠ c := by
    rintro rfl
    exact absurd hc (by decide)
  have hstep {step : Option Numeral} (hs : ∀ s ∈ step, s.IsWritten) : '\n' ∉ stepText step := by
    cases step with
    | none => exact List.not_mem_nil
    | some s => simpa [stepText] using (hs s rfl).not_mem
  cases h with
  | numbers hfirst hlast hs =>
    have hend := hstep hs
    unfold stepText at hend
    simp [written, hfirst.not_mem, hlast.not_mem, hend]
  | letters hfirst hlast hs =>
    simp [writtenLetters, hletter hfirst, hletter hlast, hstep hs]

/-- A range of integers stands for other texts unless they are too many. -/
theorem isSome_expand?_numbers {first last : Numeral} :
    (Spelled.numbers first last step).expand?.isSome = true ↔
      (first.value - last.value).natAbs / max 1 (step.elim 0 (·.value.natAbs)) + 1 ≤ maxValues := by
  rw [← stepLength_eq]
  change (if count first.value last.value (stepLength step) > maxValues then none
    else some _ : Option (List (List Char))).isSome = true ↔
      count first.value last.value (stepLength step) ≤ maxValues
  split
  · exact iff_of_false Bool.false_ne_true (Nat.not_le.mpr ‹_›)
  · exact iff_of_true rfl (Nat.not_lt.mp ‹_›)

/-- **A text stands for others** exactly if it is a range, or a range with a line feed behind it. -/
theorem isSome_expand?_iff :
    (expand? cs).isSome = true ↔
      ∃ range ending, IsRange range ∧ IsEnding ending ∧ cs = range ++ ending := by
  constructor
  · intro h
    obtain ⟨vs, hvs⟩ := Option.isSome_iff_exists.mp h
    obtain ⟨s, hread, hs⟩ := Option.bind_eq_some_iff.mp hvs
    have hsome : s.expand?.isSome = true := by rw [hs]; rfl
    obtain ⟨hwritten, ending, hending, rfl⟩ := Spelled.read?_eq_some_iff.mp hread
    refine ⟨s.text, ending, ?_, hending, rfl⟩
    cases s with
    | numbers first last step =>
      exact .numbers hwritten.1 hwritten.2.1 hwritten.2.2 (isSome_expand?_numbers.mp hsome)
    | letters first last step => exact .letters hwritten.1 hwritten.2.1 hwritten.2.2
  · rintro ⟨range, ending, hrange, hending, rfl⟩
    cases hrange with
    | numbers hfirst hlast hstep hcount =>
      rw [expand?, read?_written hfirst hlast hstep hending]
      exact isSome_expand?_numbers.mpr hcount
    | letters hfirst hlast hstep =>
      rw [expand?, read?_writtenLetters hfirst hlast hstep hending]
      rfl

end Range

namespace Glob

/-- Braces that hold neither a comma nor a range are written as themselves. -/
theorem regex_parts_plain {body : Glob} (hcomma : body.hasBare ',' = false)
    (hrange : Range.expand? body.text = none) (d : Char) (afterStar : Bool) (rest : Glob) :
    (parts d afterStar (group .braces body rest)).1.regex =
      .char '{' ((parts ',' false body).1.regex ++
        .char '}' (parts d false rest).1.regex) := by
  have hone : ¬ (parts ',' false body).2 ≠ [] := not_not.mpr (snd_parts false hcomma)
  have hjoin (r : Regex) : Regex.char '{' ((parts ',' false body).1.regex ++ .char '}' .done) ++ r =
      .char '{' ((parts ',' false body).1.regex ++ .char '}' r) :=
    congrArg _ (Regex.append_assoc _ _ _)
  rw [parts]
  simp only [if_neg hone, hrange]
  exact hjoin _

end Glob

namespace Range

/-- **What braces stand for**: other texts if they hold a range, perhaps with a line feed behind it;
    and themselves if they hold anything else without a comma. -/
theorem expand?_iff_isRange (cs : List Char) :
    ((expand? cs).isSome = true ↔ ∃ range ending, IsRange range ∧ IsEnding ending ∧
      cs = range ++ ending) ∧
    ∀ body : Glob, body.text = cs → body.hasBare ',' = false →
      (¬ ∃ range ending, IsRange range ∧ IsEnding ending ∧ cs = range ++ ending) →
        ∀ d afterStar rest, (Glob.parts d afterStar (.group .braces body rest)).1.regex =
          .char '{' ((Glob.parts ',' false body).1.regex ++
            .char '}' (Glob.parts d false rest).1.regex) := by
  refine ⟨isSome_expand?_iff, ?_⟩
  rintro body rfl hcomma hno d afterStar rest
  have hnone : expand? body.text = none := by
    rw [← Option.not_isSome_iff_eq_none]
    exact mt isSome_expand?_iff.mp hno
  exact Glob.regex_parts_plain hcomma hnone d afterStar rest

/-- Every third letter down, and one dot too many. -/
theorem expand?_iff_isRange_letters :
    (∃ range ending, IsRange range ∧ IsEnding ending ∧ "z..M..-3".toList = range ++ ending) ∧
    (Glob.parts '/' false (.group .braces (Glob.read "1...2".toList) .done)).1.regex =
      .char '{' ((Glob.parts ',' false (Glob.read "1...2".toList)).1.regex ++ .char '}' .done) := by
  have hletters := (expand?_iff_isRange "z..M..-3".toList).1
  obtain ⟨hdots, hplain⟩ := expand?_iff_isRange "1...2".toList
  refine ⟨hletters.mp (by decide), hplain _ (Glob.text_read _) (by decide) ?_ '/' false .done⟩
  rw [← hdots]
  decide

/-- **A line feed is left over**, and yet the text stands for others as if it were a range. -/
theorem expand?_line_feed :
    expand? "1..2\n".toList = some [['1'], ['2']] ∧ ¬ IsRange "1..2\n".toList :=
  ⟨by decide, fun h => h.not_mem (by decide)⟩

end Range

end Wildcard
