import Mathlib.Algebra.Group.Int.Defs
import Mathlib.Algebra.Group.Nat.Defs
import Wildcard.PatternSet

/-!
# Which values are pattern sets

Reading a value as a pattern set ends in one of four ways: with the set, with an error that says
what is wrong with the value, or, where the names of unknown options cannot be put in order for the
message, or not be written out in it, with the failure to do so.

* `Value.sorts_sorted`: keys are put in order if each two of them can be compared, and only then.
* `Value.keyText?_eq_none`: a key is written out unless it is an integer of too many digits.
* `outcome_optionsOf`, `PatternSet.outcome_ofValue`: which values end in which way.
* `PatternSet.ofValue_endings`: each way of ending as an equivalence.
* `PatternSet.load_endings`: which documents are loaded, whatever reads them.
-/

namespace Wildcard

/-! ## 1. Keys in order -/

namespace Value

/-- The kinds of keys that can be put in order. -/
inductive OrderKind where
  | text
  | number
  | date (form : Date.Form)
  deriving DecidableEq, Repr

/-- The kind of a key, if it can be put in order at all. -/
def orderKind? : Value → Option OrderKind
  | text _ => some .text
  | date d => some (.date d.form)
  | bool _ | int _ | decimal _ => some .number
  | null | list _ | mapping _ => none

/-- Two keys can be compared if they are of one kind. -/
def Comparable (a b : Value) : Prop :=
  ∃ kind, a.orderKind? = some kind ∧ b.orderKind? = some kind

theorem Comparable.symm {a b : Value} (h : a.Comparable b) : b.Comparable a := by
  obtain ⟨kind, ha, hb⟩ := h
  exact ⟨kind, hb, ha⟩

theorem Comparable.trans {a b c : Value} (hab : a.Comparable b) (hbc : b.Comparable c) :
    a.Comparable c := by
  obtain ⟨kind, ha, hb⟩ := hab
  obtain ⟨kind', hb', hc⟩ := hbc
  rw [hb] at hb'
  cases hb'
  exact ⟨kind, ha, hc⟩

/-- Dates are compared if they are of one form. -/
theorem isBelow_date_eq_error {a b : Date} :
    (∃ e, isBelow (date a) (date b) = .error e) ↔ a.form ≠ b.form := by
  rw [isBelow, Date.isBelow]
  split
  · rename_i hsame
    refine iff_of_false (fun ⟨_, he⟩ => ?_) (absurd hsame)
    cases he
  · rename_i hother
    refine iff_of_true ?_ hother
    split <;> exact ⟨_, rfl⟩

/-- **Keys are compared** if they are comparable. -/
theorem isBelow_eq_error {a b : Value} : (∃ e, isBelow a b = .error e) ↔ ¬ a.Comparable b := by
  unfold Comparable
  cases a with
  | date d =>
    cases b with
    | date d' =>
      rw [isBelow_date_eq_error]
      simp [orderKind?, eq_comm]
    | _ => simp [isBelow, orderKind?, number?]
  | _ => cases b <;> simp [isBelow, orderKind?, number?]

/-- What becomes of putting keys in order. -/
inductive Sorts (keys : List Value) : Except OrderError (List Value) → Prop
  | sorted {placed : List Value} : keys.Pairwise Comparable → placed.Perm keys →
      Sorts keys (.ok placed)
  | unordered {e : OrderError} : ¬ keys.Pairwise Comparable → Sorts keys (.error e)

/-- Which of the keys comes first does not matter. -/
theorem Sorts.of_perm {keys keys' : List Value} {result : Except OrderError (List Value)}
    (h : Sorts keys result) (hperm : keys.Perm keys') : Sorts keys' result := by
  have hpairwise : keys.Pairwise Comparable ↔ keys'.Pairwise Comparable :=
    hperm.pairwise_iff Comparable.symm
  cases h with
  | sorted hall hplaced => exact .sorted (hpairwise.mp hall) (hplaced.trans hperm)
  | unordered hnot => exact .unordered fun hall => hnot (hpairwise.mpr hall)

/-- A key that is put among keys in order is compared with some of them only; as these can all be
    compared with each other, that makes no difference. -/
theorem sorts_place {key : Value} {placed : List Value} (h : placed.Pairwise Comparable) :
    Sorts (key :: placed) (place key placed) := by
  induction placed with
  | nil => exact .sorted (List.pairwise_singleton _ _) (List.Perm.refl _)
  | cons k rest ih =>
    obtain ⟨hk, hrest⟩ := List.pairwise_cons.mp h
    rw [place]
    cases hbelow : isBelow k key with
    | error e =>
      refine .unordered fun hall => isBelow_eq_error.mp ⟨e, hbelow⟩ ?_
      exact ((List.pairwise_cons.mp hall).1 k List.mem_cons_self).symm
    | ok below =>
      have hkey : key.Comparable k := Comparable.symm <| Classical.not_not.mp fun hnot => by
        obtain ⟨e, he⟩ := isBelow_eq_error.mpr hnot
        rw [he] at hbelow
        cases hbelow
      cases below with
      | false =>
        refine .sorted (List.pairwise_cons.mpr ⟨fun l hl => ?_, h⟩) (List.Perm.refl _)
        rcases List.mem_cons.mp hl with rfl | hl
        · exact hkey
        · exact hkey.trans (hk l hl)
      | true =>
        have hplace := ih hrest
        generalize place key rest = result at hplace
        cases hplace with
        | sorted hall hperm =>
          have hsorts : Sorts (k :: key :: rest) (.ok (k :: _)) :=
            .sorted (List.pairwise_cons.mpr ⟨fun l hl => ?_, hall⟩) (hperm.cons k)
          · exact hsorts.of_perm (List.Perm.swap key k rest)
          · rcases List.mem_cons.mp hl with rfl | hl
            · exact hkey.symm
            · exact hk l hl
        | unordered hnot =>
          refine .unordered fun hall => hnot (hall.sublist ?_)
          exact (List.sublist_cons_self k rest).cons_cons key

/-- **Keys are put in order** if each two of them can be compared, and only then. -/
theorem sorts_sorted (keys : List Value) : Sorts keys (sorted keys) := by
  induction keys with
  | nil => exact .sorted List.Pairwise.nil (List.Perm.refl _)
  | cons k rest ih =>
    rw [sorted]
    generalize sorted rest = result at ih
    cases ih with
    | sorted hall hperm =>
      have hplaced := (hperm.pairwise_iff Comparable.symm).mpr hall
      exact (sorts_place hplaced).of_perm (hperm.cons k)
    | unordered hnot => exact .unordered fun hall => hnot (List.pairwise_cons.mp hall).2

/-! ## 2. Keys in a message -/

/-- An integer of more digits than are written out. -/
def IsTooLong : Value → Prop
  | int n => 10 ^ maxDecimalDigits ≤ n.natAbs
  | _ => False

/-- **A key is written out** unless it is an integer of too many digits. -/
theorem keyText?_eq_none {v : Value} : v.keyText? = none ↔ v.IsTooLong := by
  cases v with
  | int n =>
    have hdigits : (Nat.toDigits 10 n.natAbs).length ≤ maxDecimalDigits ↔
        n.natAbs < 10 ^ maxDecimalDigits :=
      Nat.length_toDigits_le_iff (by decide) (by decide)
    rw [IsTooLong, ← Nat.not_lt, ← hdigits, keyText?]
    by_cases h : (Nat.toDigits 10 n.natAbs).length ≤ maxDecimalDigits <;> simp [h]
  | bool b => cases b <;> simp [keyText?, IsTooLong]
  | _ => simp [keyText?, IsTooLong]

/-- Keys are written out unless one of them is not. -/
theorem mapM_keyText?_eq_none {keys : List Value} :
    keys.mapM keyText? = none ↔ ∃ k ∈ keys, k.IsTooLong := by
  simp only [← keyText?_eq_none]
  induction keys with
  | nil => simp
  | cons k rest ih =>
    simp only [List.mapM_cons, List.mem_cons, exists_eq_or_imp, ← ih]
    cases k.keyText? with
    | none => simp
    | some t => cases rest.mapM keyText? <;> simp

end Value

/-! ## 3. Ways to end -/

/-- Whether an error says what is wrong with a value; that names cannot be put in order or be
    written out is no such thing. -/
def ConfigError.Refuses : ConfigError → Prop
  | unorderedOptions _ | unwritableOption => False
  | _ => True

/-- The ways in which reading a value ends: it is well-formed, or it is not and the error says why,
    or the names of its unknown options cannot be put in order, or one of them cannot be written
    out. -/
inductive Outcome {β : Type} (wellFormed unordered unwritable : Prop) :
    Except ConfigError β → Prop
  | read {b : β} : wellFormed → ¬ unordered → ¬ unwritable →
      Outcome wellFormed unordered unwritable (.ok b)
  | refused {e : ConfigError} : ¬ wellFormed → ¬ unordered → ¬ unwritable → e.Refuses →
      Outcome wellFormed unordered unwritable (.error e)
  | unordered {e : OrderError} : ¬ wellFormed → unordered → ¬ unwritable →
      Outcome wellFormed unordered unwritable (.error (.unorderedOptions e))
  | unwritable : ¬ wellFormed → ¬ unordered → unwritable →
      Outcome wellFormed unordered unwritable (.error .unwritableOption)

/-! ## 4. Options -/

/-- What a mapping gives for options: those that are true or false are so where they are given, and
    the flags are nothing or a text. -/
structure GivenOptions (entries : List (Value × Value)) : Prop where
  booleans : ∀ name ∈ booleanOptions, ∀ v, Value.lookup name entries = some v → ∃ b, v = .bool b
  flags : ∀ v, Value.lookup flagsOption entries = some v → v = .null ∨ ∃ t, v = .text t

/-- A mapping as options: it has no other key than the names of options. -/
structure OptionEntries (entries : List (Value × Value)) : Prop extends GivenOptions entries where
  known : ∀ e ∈ entries, ∃ name ∈ flagsOption :: booleanOptions, e.1 = .text name

namespace Value

/-- A value as options: nothing, or a mapping. -/
def IsOptions : Value → Prop
  | null => True
  | mapping entries => OptionEntries entries
  | _ => False

/-- A mapping with unknown keys that cannot be put in order. -/
def HasUnorderedKeys : Value → Prop
  | mapping entries => ¬ (unknownKeys entries).Pairwise Comparable
  | _ => False

/-- A mapping with unknown keys that can be put in order, but of which one cannot be written out. -/
def HasUnwritableKeys : Value → Prop
  | mapping entries =>
    (unknownKeys entries).Pairwise Comparable ∧ ∃ k ∈ unknownKeys entries, k.IsTooLong
  | _ => False

end Value

theorem isOptionName_iff {k : Value} :
    isOptionName k = true ↔ ∃ name ∈ flagsOption :: booleanOptions, k = .text name := by
  cases k <;> simp [isOptionName]

theorem unknownKeys_eq_nil {entries : List (Value × Value)} :
    unknownKeys entries = [] ↔
      ∀ e ∈ entries, ∃ name ∈ flagsOption :: booleanOptions, e.1 = .text name := by
  have hkeys : unknownKeys entries = [] ↔ ∀ e ∈ entries, isOptionName e.1 = true := by
    simp [unknownKeys]
  rw [hkeys]
  exact forall₂_congr fun _ _ => isOptionName_iff

/-- An option is read if it is not given or true or false. -/
theorem booleanOption_cases (entries : List (Value × Value)) (name : List Char) :
    ((∃ b, booleanOption entries name = .ok b) ∧
        ∀ v, Value.lookup name entries = some v → ∃ b, v = .bool b) ∨
      booleanOption entries name = .error (.optionNotABoolean name) ∧
        ¬ ∀ v, Value.lookup name entries = some v → ∃ b, v = .bool b := by
  unfold booleanOption
  cases hlookup : Value.lookup name entries with
  | none => exact .inl ⟨⟨false, rfl⟩, fun v hv => nomatch hv⟩
  | some v =>
    by_cases hbool : ∃ b, v = .bool b
    · obtain ⟨b, rfl⟩ := hbool
      exact .inl ⟨⟨b, rfl⟩, fun w hw => ⟨b, (Option.some.inj hw).symm⟩⟩
    · refine .inr ⟨?_, fun hall => hbool (hall v rfl)⟩
      cases v <;> first | rfl | exact absurd ⟨_, rfl⟩ hbool

/-- **Options that are given** are read if they are well-formed. -/
theorem outcome_givenOptions (entries : List (Value × Value)) :
    Outcome (GivenOptions entries) False False (givenOptions entries) := by
  have hrefused : ∀ name ∈ booleanOptions,
      (¬ ∀ v, Value.lookup name entries = some v → ∃ b, v = .bool b) →
        Outcome (GivenOptions entries) False False
          (.error (.optionNotABoolean name) : Except ConfigError MatchOptions) :=
    fun name hname hnot => .refused (fun hgiven => hnot (hgiven.booleans name hname)) id id trivial
  unfold givenOptions
  rcases booleanOption_cases entries "nocase".toList with ⟨⟨nocase, hnocase⟩, h₁⟩ | ⟨hread, hnot⟩
  · rw [hnocase]
    rcases booleanOption_cases entries "nonegate".toList with
      ⟨⟨nonegate, hnonegate⟩, h₂⟩ | ⟨hread, hnot⟩
    · rw [hnonegate]
      rcases booleanOption_cases entries "dot".toList with ⟨⟨dot, hdot⟩, h₃⟩ | ⟨hread, hnot⟩
      · rw [hdot]
        have hbooleans : ∀ name ∈ booleanOptions, ∀ v,
            Value.lookup name entries = some v → ∃ b, v = .bool b := by
          intro name hname
          simp only [booleanOptions, List.mem_cons, List.not_mem_nil, or_false] at hname
          rcases hname with rfl | rfl | rfl
          · exact h₁
          · exact h₂
          · exact h₃
        cases hflags : Value.lookup flagsOption entries with
        | none => exact .read ⟨hbooleans, fun v hv => by rw [hflags] at hv; cases hv⟩ id id
        | some v =>
          have hread : (v = .null ∨ ∃ t, v = .text t) → GivenOptions entries := by
            intro hform
            refine ⟨hbooleans, fun w hw => ?_⟩
            rw [hflags] at hw
            cases hw
            exact hform
          have hnot : ¬ (v = .null ∨ ∃ t, v = .text t) → ¬ GivenOptions entries :=
            fun hform hgiven => hform (hgiven.flags v hflags)
          cases v with
          | null => exact .read (hread (.inl rfl)) id id
          | text t => exact .read (hread (.inr ⟨t, rfl⟩)) id id
          | _ => exact .refused (hnot (by simp)) id id trivial
      · rw [hread]
        exact hrefused _ (by decide) hnot
    · rw [hread]
      exact hrefused _ (by decide) hnot
  · rw [hread]
    exact hrefused _ (by decide) hnot

/-- **Reading options.** -/
theorem outcome_optionsOf (v : Value) :
    Outcome v.IsOptions v.HasUnorderedKeys v.HasUnwritableKeys (optionsOf v) := by
  cases v with
  | null => exact .read trivial id id
  | mapping entries =>
    show Outcome (OptionEntries entries) (¬ (unknownKeys entries).Pairwise Value.Comparable)
      ((unknownKeys entries).Pairwise Value.Comparable ∧ ∃ k ∈ unknownKeys entries, k.IsTooLong) _
    have hunknown : OptionEntries entries → unknownKeys entries = [] :=
      fun hform => unknownKeys_eq_nil.mpr hform.known
    have hsorts := Value.sorts_sorted (unknownKeys entries)
    rw [optionsOf]
    generalize Value.sorted (unknownKeys entries) = placed at hsorts
    cases hsorts with
    | unordered hnot =>
      refine .unordered (fun hform => hnot ?_) hnot fun hlong => hnot hlong.1
      rw [hunknown hform]
      exact List.Pairwise.nil
    | @sorted placed hall hperm =>
      have hordered := not_not_intro hall
      cases placed with
      | nil =>
        have hnil : unknownKeys entries = [] := hperm.symm.eq_nil
        have hknown := unknownKeys_eq_nil.mp hnil
        have hwritable :
            ¬ ((unknownKeys entries).Pairwise Value.Comparable ∧
              ∃ k ∈ unknownKeys entries, k.IsTooLong) := by
          rw [hnil]
          rintro ⟨-, k, hk, -⟩
          exact nomatch hk
        have hgiven := outcome_givenOptions entries
        generalize givenOptions entries = given at hgiven
        cases hgiven with
        | read hform _ => exact .read ⟨hform, hknown⟩ hordered hwritable
        | refused hnot _ _ hrefuses =>
          exact .refused (fun hform => hnot hform.toGivenOptions) hordered hwritable hrefuses
        | unordered _ hfalse => exact hfalse.elim
        | unwritable _ _ hfalse => exact hfalse.elim
      | cons k rest =>
        have hform : ¬ OptionEntries entries := fun hform => by
          rw [hunknown hform] at hperm
          exact List.cons_ne_nil k rest hperm.eq_nil
        have hlong : (k :: rest).mapM Value.keyText? = none ↔
            ∃ k ∈ unknownKeys entries, k.IsTooLong := by
          rw [Value.mapM_keyText?_eq_none]
          exact exists_congr fun _ => and_congr_left fun _ => hperm.mem_iff
        dsimp only
        cases hnames : (k :: rest).mapM Value.keyText? with
        | none => exact .unwritable hform hordered ⟨hall, hlong.mp hnames⟩
        | some names =>
          refine .refused hform hordered (fun h => ?_) trivial
          rw [hlong.mpr h.2] at hnames
          cases hnames
  | _ => exact .refused id id id trivial

/-! ## 5. Pattern sets -/

namespace Value

/-- A value as patterns: nothing, or a list of texts. -/
def IsPatterns : Value → Prop
  | null => True
  | list items => ∀ v ∈ items, ∃ t, v = text t
  | _ => False

/-- A value as a pattern set: nothing, a list of texts, or a mapping with patterns and options. One
    that is missing in the mapping is nothing. -/
def IsPatternSet : Value → Prop
  | null => True
  | list items => ∀ v ∈ items, ∃ t, v = text t
  | mapping entries =>
    ((lookup "patterns".toList entries).getD null).IsPatterns ∧
      ((lookup "options".toList entries).getD null).IsOptions
  | _ => False

/-- A mapping whose patterns are fine, but whose options have unknown keys that cannot be put in
    order. -/
def HasUnorderedOptions : Value → Prop
  | mapping entries =>
    ((lookup "patterns".toList entries).getD null).IsPatterns ∧
      ((lookup "options".toList entries).getD null).HasUnorderedKeys
  | _ => False

/-- A mapping whose patterns are fine, but whose options have unknown keys that can be put in order
    and of which one cannot be written out. -/
def HasUnwritableOptions : Value → Prop
  | mapping entries =>
    ((lookup "patterns".toList entries).getD null).IsPatterns ∧
      ((lookup "options".toList entries).getD null).HasUnwritableKeys
  | _ => False

theorem asPatterns_cases (items : List Value) :
    (∃ ps, asPatterns items = .ok ps) ∧ (∀ v ∈ items, ∃ t, v = text t) ∨
      (∃ e, asPatterns items = .error e) ∧ ¬ ∀ v ∈ items, ∃ t, v = text t := by
  induction items with
  | nil => exact .inl ⟨⟨[], rfl⟩, fun v hv => nomatch hv⟩
  | cons v rest ih =>
    rw [asPatterns, List.forall_mem_cons]
    cases v with
    | text t =>
      rcases ih with ⟨⟨ps, hps⟩, hall⟩ | ⟨⟨e, he⟩, hnot⟩
      · rw [hps]
        exact .inl ⟨⟨_, rfl⟩, ⟨t, rfl⟩, hall⟩
      · rw [he]
        exact .inr ⟨⟨_, rfl⟩, fun hform => hnot hform.2⟩
    | _ => exact .inr ⟨⟨_, rfl⟩, fun hform => by simp at hform⟩

end Value

namespace PatternSet

/-- **Reading patterns** never puts anything in order, nor writes a key. -/
theorem outcome_patternsOf (v : Option Value) :
    Outcome (v.getD .null).IsPatterns False False (patternsOf v) := by
  cases v with
  | none => exact .read trivial id id
  | some w =>
    cases w with
    | null => exact .read trivial id id
    | list items =>
      rw [patternsOf]
      rcases Value.asPatterns_cases items with ⟨⟨ps, hps⟩, hall⟩ | ⟨⟨e, he⟩, hnot⟩
      · rw [hps]
        exact .read hall id id
      · rw [he]
        exact .refused hnot id id trivial
    | _ => exact .refused id id id trivial

/-- **Reading the two parts**, the patterns first. -/
theorem outcome_ofParts (patterns options : Option Value) :
    Outcome ((patterns.getD .null).IsPatterns ∧ (options.getD .null).IsOptions)
      ((patterns.getD .null).IsPatterns ∧ (options.getD .null).HasUnorderedKeys)
      ((patterns.getD .null).IsPatterns ∧ (options.getD .null).HasUnwritableKeys)
      ((ofParts patterns options).mapError (·.cause)) := by
  unfold ofParts
  have hpatterns := outcome_patternsOf patterns
  generalize patternsOf patterns = texts at hpatterns
  cases hpatterns with
  | refused hnot _ _ hrefuses =>
    exact .refused (fun h => hnot h.1) (fun h => hnot h.1) (fun h => hnot h.1) hrefuses
  | unordered _ hfalse => exact hfalse.elim
  | unwritable _ _ hfalse => exact hfalse.elim
  | read hform _ _ =>
    have hoptions := outcome_optionsOf (options.getD .null)
    generalize optionsOf (options.getD .null) = given at hoptions
    cases hoptions with
    | read hgiven hordered hwritable =>
      exact .read ⟨hform, hgiven⟩ (fun h => hordered h.2) fun h => hwritable h.2
    | refused hnot hordered hwritable hrefuses =>
      exact .refused (fun h => hnot h.2) (fun h => hordered h.2) (fun h => hwritable h.2) hrefuses
    | unordered hnot hunordered hwritable =>
      exact .unordered (fun h => hnot h.2) ⟨hform, hunordered⟩ fun h => hwritable h.2
    | unwritable hnot hordered hunwritable =>
      exact .unwritable (fun h => hnot h.2) (fun h => hordered h.2) ⟨hform, hunwritable⟩

/-- **Reading a value.** -/
theorem outcome_ofValue (data : Value) :
    Outcome data.IsPatternSet data.HasUnorderedOptions data.HasUnwritableOptions
      ((ofValue data).mapError (·.cause)) := by
  cases data with
  | null => exact .read trivial id id
  | list items =>
    have hparts := outcome_ofParts (some (.list items)) none
    -- Without options only the patterns count.
    have hform : ((Value.list items).IsPatterns ∧ Value.null.IsOptions) =
      (Value.list items).IsPatternSet := and_true _
    have hordered : ((Value.list items).IsPatterns ∧ Value.null.HasUnorderedKeys) =
      (Value.list items).HasUnorderedOptions := and_false _
    have hwritable : ((Value.list items).IsPatterns ∧ Value.null.HasUnwritableKeys) =
      (Value.list items).HasUnwritableOptions := and_false _
    rwa [Option.getD_some, Option.getD_none, hform, hordered, hwritable] at hparts
  | mapping entries => exact outcome_ofParts _ _
  | _ => exact .refused id id id trivial

/-- **How reading a value ends**, whatever the value. It gives a pattern set if the value has the
    form of one, and else it is refused with what is wrong, unless the patterns are fine and the
    options have unknown keys that cannot be put in order, or that can be and among which there is
    an integer of more than 4300 digits: then that is what fails. -/
theorem ofValue_endings (data : Value) :
    ((∃ s, ofValue data = .ok s) ↔ data.IsPatternSet) ∧
      ((∃ e, ofValue data = .error e ∧ e.cause.Refuses) ↔
        ¬ data.IsPatternSet ∧ ¬ data.HasUnorderedOptions ∧ ¬ data.HasUnwritableOptions) ∧
      ((∃ e, ofValue data = .error e ∧ ∃ order, e.cause = .unorderedOptions order) ↔
        data.HasUnorderedOptions) ∧
      ((∃ e, ofValue data = .error e ∧ e.cause = .unwritableOption) ↔
        data.HasUnwritableOptions) := by
  have houtcome := outcome_ofValue data
  cases hread : ofValue data with
  | ok s =>
    rw [hread] at houtcome
    cases houtcome with
    | read hform hordered hwritable => simp [hform, hordered, hwritable]
  | error e =>
    rw [hread] at houtcome
    obtain ⟨inOptions, cause⟩ := e
    cases houtcome with
    | refused hnot hordered hwritable hrefuses =>
      cases cause <;> simp_all [ConfigError.Refuses]
    | unordered hnot hunordered hwritable =>
      simp [hnot, hunordered, hwritable, ConfigError.Refuses]
    | unwritable hnot hordered hunwritable =>
      simp [hnot, hordered, hunwritable, ConfigError.Refuses]

/-- Two unknown options, one named by a number and one by a text: the value is no pattern set, and
    no error says so. -/
theorem ofValue_unordered_names :
    let data : Value := .mapping [(.text "options".toList,
      .mapping [(.int 0, .bool true), (.text "a".toList, .bool true)])]
    ¬ data.IsPatternSet ∧ ¬ ∃ e, ofValue data = .error e ∧ e.cause.Refuses := by
  refine ⟨fun hset => ?_, ?_⟩
  · obtain ⟨name, _, hname⟩ := hset.2.known (.int 0, .bool true) List.mem_cons_self
    cases hname
  · rintro ⟨e, he, hrefuses⟩
    have hread : ofValue (.mapping [(.text "options".toList,
        .mapping [(.int 0, .bool true), (.text "a".toList, .bool true)])]) =
      .error ⟨true, .unorderedOptions (.kinds "str" "int")⟩ := rfl
    rw [hread] at he
    cases he
    exact hrefuses

/-- One unknown option, named by the least integer of 4301 digits: here too the value is no pattern
    set, and no error says so. -/
theorem ofValue_unwritable_name :
    let data : Value := .mapping [(.text "options".toList,
      .mapping [(.int (10 ^ Value.maxDecimalDigits), .bool true)])]
    ¬ data.IsPatternSet ∧ ¬ ∃ e, ofValue data = .error e ∧ e.cause.Refuses := by
  intro data
  have hlong : (Value.int (10 ^ Value.maxDecimalDigits)).IsTooLong := by
    unfold Value.IsTooLong
    generalize Value.maxDecimalDigits = k
    exact Nat.le_of_eq (Int.natAbs_pow 10 k).symm
  have hunwritable : data.HasUnwritableOptions :=
    ⟨trivial, List.pairwise_singleton _ _, _, List.mem_cons_self, hlong⟩
  have houtcome := outcome_ofValue data
  generalize ofValue data = result at houtcome ⊢
  cases result with
  | ok s =>
    cases houtcome with
    | read _ _ hwritable => exact absurd hunwritable hwritable
  | error e =>
    obtain ⟨inOptions, cause⟩ := e
    cases houtcome with
    | refused _ _ hwritable _ => exact absurd hunwritable hwritable
    | unordered _ _ hwritable => exact absurd hunwritable hwritable
    | unwritable hnot _ _ =>
      refine ⟨hnot, ?_⟩
      rintro ⟨e, he, hrefuses⟩
      cases he
      exact hrefuses

/-! ## 6. Loading -/

/-- **How loading ends**, whatever reads the documents. It gives a pattern set if there is a
    document whose value has the form of one; what the reader has against a document is passed on;
    and what is wrong with the value is said unless naming its unknown options fails. -/
theorem load_endings {ε : Type} (read : ByteArray → Except ε Value) (source : Source) :
    ((∃ s, load read source = .ok s) ↔
        ∃ b v, source = .bytes b ∧ read b = .ok v ∧ v.IsPatternSet) ∧
      (∀ e, load read source = .error (.document e) ↔ ∃ b, source = .bytes b ∧ read b = .error e) ∧
      ((∃ e, load read source = .error (.config e) ∧ e.cause.Refuses) ↔
        ∃ b v, source = .bytes b ∧ read b = .ok v ∧ ¬ v.IsPatternSet ∧
          ¬ v.HasUnorderedOptions ∧ ¬ v.HasUnwritableOptions) := by
  cases source with
  | absent => simp [load]
  | unreadable => simp [load]
  | bytes b =>
    cases hread : read b with
    | error e => simp [load, hread]
    | ok v =>
      have houtcome := outcome_ofValue v
      cases hvalue : ofValue v with
      | ok s =>
        rw [hvalue] at houtcome
        cases houtcome with
        | read hform _ _ => simp [load, hread, hvalue, hform]
      | error e =>
        rw [hvalue] at houtcome
        obtain ⟨inOptions, cause⟩ := e
        cases houtcome with
        | refused hnot hordered hwritable hrefuses =>
          simp [load, hread, hvalue, hnot, hordered, hwritable, hrefuses]
        | unordered hnot hunordered _ =>
          simp [load, hread, hvalue, hnot, hunordered, ConfigError.Refuses]
        | unwritable hnot _ hunwritable =>
          simp [load, hread, hvalue, hnot, hunwritable, ConfigError.Refuses]

end PatternSet

end Wildcard
