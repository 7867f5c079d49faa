import Wildcard.Proofs.Compilation
import Wildcard.Proofs.Predicate

/-!
# Flags that make no difference

The regex of a pattern holds no dot and no anchor of a line, and all that a verbose reader would
drop is escaped in it or stands in a set. So of the six flags only two count: whether case is
ignored and, if it is, whether for the letters of ASCII alone.

* `ofLetters_eq`: the flags that some letters name.
* `isFoundIn_compile_congr`: compiled under flags that compare characters by one rule, the regex of
  a pattern is refused alike, or found in the same texts.
* `isMatch_of_sameCase`: what a matcher answers under two texts of letters that say the same of
  case.
-/

namespace Wildcard

open Regex (Flags Single Translation)

/-! ## 1. Letters -/

namespace Regex.Flags

/-- Letters that each name a flag, and that do not ask for both ways of folding case. -/
structure Proper (letters : List Char) : Prop where
  named : ∀ c ∈ letters, c ∈ ['i', 'm', 's', 'x', 'a', 'u']
  agree : ¬ ('a' ∈ letters ∧ 'u' ∈ letters)

/-- Two texts of letters that say the same of case. -/
structure SameCase (letters letters' : List Char) : Prop where
  ignored : 'i' ∈ letters ↔ 'i' ∈ letters'
  ascii : 'i' ∈ letters → ('a' ∈ letters ↔ 'a' ∈ letters')

/-- A flag is set if its letter is there, or if it was set before. -/
theorem insertAll_eq {letters : List Char}
    (h : ∀ c ∈ letters, c ∈ ['i', 'm', 's', 'x', 'a', 'u']) (f : Flags) :
    f.insertAll letters = .ok
      { ignoreCase := f.ignoreCase || letters.contains 'i'
        multiline := f.multiline || letters.contains 'm'
        dotAll := f.dotAll || letters.contains 's'
        verbose := f.verbose || letters.contains 'x'
        ascii := f.ascii || letters.contains 'a'
        unicode := f.unicode || letters.contains 'u' } := by
  induction letters generalizing f with
  | nil => simp [insertAll]
  | cons c rest ih =>
    obtain ⟨hc, hrest⟩ := List.forall_mem_cons.mp h
    simp only [List.mem_cons, List.not_mem_nil, or_false] at hc
    rcases hc with rfl | rfl | rfl | rfl | rfl | rfl <;> simp [insertAll, insert?, ih hrest]

theorem ofLetters_eq {letters : List Char}
    (h : ∀ c ∈ letters, c ∈ ['i', 'm', 's', 'x', 'a', 'u']) :
    ofLetters letters = .ok
      { ignoreCase := letters.contains 'i', multiline := letters.contains 'm'
        dotAll := letters.contains 's', verbose := letters.contains 'x'
        ascii := letters.contains 'a', unicode := letters.contains 'u' } := by
  rw [ofLetters, insertAll_eq h]
  simp

/-- Proper letters name flags that agree. -/
theorem Proper.exists_ofLetters {letters : List Char} (h : Proper letters) :
    ∃ f : Flags, ofLetters letters = .ok f ∧ (f.ascii && f.unicode) = false ∧
      (f.ignoreCase = true ↔ 'i' ∈ letters) ∧ (f.ascii = true ↔ 'a' ∈ letters) := by
  refine ⟨_, ofLetters_eq h.named, ?_, List.contains_iff_mem, List.contains_iff_mem⟩
  simpa using h.agree

/-- Letters that say the same of case have characters compared by the same rule. -/
theorem caseRule_of_sameCase {letters letters' : List Char} (h : SameCase letters letters')
    {f f' : Flags} (hi : f.ignoreCase = true ↔ 'i' ∈ letters)
    (ha : f.ascii = true ↔ 'a' ∈ letters) (hi' : f'.ignoreCase = true ↔ 'i' ∈ letters')
    (ha' : f'.ascii = true ↔ 'a' ∈ letters') : f.caseRule = f'.caseRule := by
  have hignore : f.ignoreCase = f'.ignoreCase := by
    rw [Bool.eq_iff_iff, hi, hi', h.ignored]
  unfold caseRule
  rw [← hignore]
  cases hcase : f.ignoreCase with
  | false => rfl
  | true =>
    have hascii : f.ascii = f'.ascii := by
      rw [Bool.eq_iff_iff, ha, ha', h.ascii (hi.mp hcase)]
    rw [hascii]

/-- Case counts where characters are compared as they are. -/
theorem ignoreCase_congr {f f' : Flags} (h : f.caseRule = f'.caseRule) :
    f.ignoreCase = f'.ignoreCase := by
  have hexact (f : Flags) : f.ignoreCase = false ↔ f.caseRule = .exact := by
    unfold caseRule
    cases f.ignoreCase <;> cases f.ascii <;> simp
  rw [Bool.eq_iff_iff, ← not_iff_not, Bool.not_eq_true, Bool.not_eq_true, hexact, hexact, h]

end Regex.Flags

/-! ## 2. Regexes without dots -/

namespace Regex

/-- Where case is compared by the same rule, only a dot sees the flags. -/
theorem accepts_of_ne_dot {s : Single} (h : s ≠ .dot) (rule : CaseRule) (dotAll dotAll' : Bool) :
    s.accepts rule dotAll = s.accepts rule dotAll' := by
  cases s with
  | dot => exact absurd rfl h
  | literal l => rfl
  | choice l => rfl
  | set negated items => rfl

theorem marked_ne_dot (s : Single) (h : s ≠ .dot) : s.marked ≠ .dot := by
  unfold Single.marked
  split
  · exact nofun
  · split <;> exact nofun
  · exact h

theorem compared_congr {f f' : Flags} (h : f.caseRule = f'.caseRule) (r : Regex) :
    r.compared f = r.compared f' := by
  unfold compared
  rw [Flags.ignoreCase_congr h]

/-- **A regex without dots** spans the same under flags that compare characters by one rule. -/
theorem spansUnder_congr {L : Prop} {r : Regex} (hr : Translation (· ≠ .dot) L r) {f f' : Flags}
    (h : f.caseRule = f'.caseRule) (text : List Char) :
    SpansUnder f text r = SpansUnder f' text r := by
  have hcompared : Translation (· ≠ .dot) L (r.compared f) := hr.compared marked_ne_dot f
  have hitems : (r.compared f).Each fun s =>
      s.accepts (f.subject text).rule (f.subject text).dotAll =
        s.accepts (f'.subject text).rule (f'.subject text).dotAll := by
    refine Each.imp (fun s hs => ?_) (hcompared.each fun _ => nofun)
    show s.accepts f.caseRule f.dotAll = s.accepts f'.caseRule f'.dotAll
    rw [h]
    exact accepts_of_ne_dot hs _ _ _
  rw [SpansUnder, spans_congr hcompared.unrooted hitems, compared_congr h]
  rfl

/-- **Compiled under flags that compare characters by one rule**, a regex without dots between the
    ends of a text is refused for the same reason, or found in the same texts. -/
theorem isFoundIn_compile_congr {r : Regex} (hspelled : Translation Single.IsSpelled True r)
    (hdots : Translation (· ≠ .dot) True r) {f f' : Flags}
    (hagree : (f.ascii && f.unicode) = false) (hagree' : (f'.ascii && f'.unicode) = false)
    (hrule : f.caseRule = f'.caseRule) :
    (CompiledRegex.compile (anchor .start (r ++ anchor .stop done)).text f).map (·.isFoundIn) =
      (CompiledRegex.compile (anchor .start (r ++ anchor .stop done)).text f').map
        (·.isFoundIn) := by
  have hwhole : (anchor .start (r ++ anchor .stop done)).IsSpelled :=
    hspelled.isSpelled.append trivial
  by_cases hranges : (anchor .start (r ++ anchor .stop done)).InOrder
  · obtain ⟨c, hc⟩ := exists_compile hwhole hranges hagree
    obtain ⟨c', hc'⟩ := exists_compile hwhole hranges hagree'
    obtain ⟨-, hfound⟩ := isFoundIn_compile hspelled hc
    obtain ⟨-, hfound'⟩ := isFoundIn_compile hspelled hc'
    rw [hc, hc']
    refine congrArg Except.ok (funext fun x => ?_)
    have hsame : SpansUnder f x r = SpansUnder f' x r := spansUnder_congr hdots hrule x
    rw [Bool.eq_iff_iff, hfound, hfound']
    exact iff_of_eq (congrFun (congrFun hsame x) [])
  · -- the same range is named, whatever the flags
    have hnot : ¬ (anchor .start (r ++ anchor .stop done)).reversed? 0 = none :=
      mt (reversed?_eq_none 0 _).mp hranges
    obtain ⟨e, he⟩ := Option.ne_none_iff_exists'.mp hnot
    unfold CompiledRegex.compile
    rw [read_text hwhole, read_text hwhole, he]
    rfl

end Regex

/-! ## 3. Patterns -/

namespace Segmentation

theorem admits_ne_dot : Glob.Admits (· ≠ Single.dot) := ⟨nofun⟩

/-- The regex of a pattern holds no dot. -/
theorem dotless_middle (dot : Bool) (pattern : List Char) :
    Translation (· ≠ .dot) True (middle dot pattern) := by
  refine translation_middle admits_ne_dot nofun dot (Glob.writtenIn_of_classes ?_ nofun nofun ?_ '/')
  · intro cls _
    unfold Bracket.item
    split <;> exact nofun
  · exact fun _ => ⟨nofun, nofun⟩

end Segmentation

namespace CompiledGlob

variable {pattern : List Char} {options options' : Option MatchOptions} {flags flags' : Flags}

/-- Under known flags a pattern is refused only because its regex is, and else answers like it. -/
theorem regexOf_eq (hflags : MatchOptions.regexFlags options = .ok flags) :
    regexOf pattern options = ((CompiledRegex.compile (Regex.anchor .start
      (Segmentation.middle (MatchOptions.matchesDot options) pattern ++
        .anchor .stop .done)).text flags).map (·.search)).mapError (.invalidPattern pattern) := by
  rw [regexOf, ofPattern_eq hflags]
  cases CompiledRegex.compile (Regex.anchor .start
    (Segmentation.middle (MatchOptions.matchesDot options) pattern ++
      .anchor .stop .done)).text flags <;> rfl

/-- **Under flags that compare characters by one rule** a pattern is refused for the same reason, or
    its regex accepts the same candidates. -/
theorem accepts_regexOf_congr (hflags : MatchOptions.regexFlags options = .ok flags)
    (hflags' : MatchOptions.regexFlags options' = .ok flags')
    (hdot : MatchOptions.matchesDot options = MatchOptions.matchesDot options')
    (hagree : (flags.ascii && flags.unicode) = false)
    (hagree' : (flags'.ascii && flags'.unicode) = false)
    (hrule : flags.caseRule = flags'.caseRule) (pattern candidate : List Char) :
    (regexOf pattern options).map (·.accepts candidate) =
      (regexOf pattern options').map (·.accepts candidate) := by
  have hsame := Regex.isFoundIn_compile_congr
    (Segmentation.spelled_middle (MatchOptions.matchesDot options) pattern)
    (Segmentation.dotless_middle (MatchOptions.matchesDot options) pattern) hagree hagree' hrule
  rw [regexOf_eq hflags, regexOf_eq hflags', ← hdot]
  generalize CompiledRegex.compile _ flags = compiled at hsame ⊢
  generalize CompiledRegex.compile _ flags' = compiled' at hsame ⊢
  cases compiled with
  | error e =>
    cases compiled' with
    | error e' => rw [Except.error.inj hsame]
    | ok r' => cases hsame
  | ok r =>
    cases compiled' with
    | error e' => cases hsame
    | ok r' =>
      have hfound : r.isFoundIn = r'.isFoundIn := Except.ok.inj hsame
      refine congrArg Except.ok ?_
      show r.search.accepts candidate = r'.search.accepts candidate
      rw [Search.accepts, Search.accepts, CompiledRegex.search, CompiledRegex.search, hfound]

end CompiledGlob

/-! ## 4. Answers -/

namespace Matcher

variable {m : Matcher} {held : Bool} {o o' : MatchOptions} {flags : Flags}

/-- What a matcher with a sound memo answers where options are given. -/
theorem Faithful.isMatch_snd (h : Faithful held m)
    (hflags : MatchOptions.regexFlags (some o) = .ok flags) (candidate pattern : List Char)
    (negated : Option Bool) :
    (m.isMatch candidate pattern (some o) negated).2 =
      if Text.isBlankText pattern then .ok (candidate == pattern)
      else if isLiteralPattern pattern && !flags.ignoreCase then
        .ok (matchesLiteral candidate pattern)
      else (CompiledGlob.regexOf pattern (some o)).map (·.accepts candidate) :=
  h.answer_isMatch hflags candidate pattern negated

/-- **Of the flags only those of case count.** Under two texts of letters that say the same of case
    a pattern is matched alike, whatever was done before, and if one match fails, then because the
    regex of the pattern is refused, and so does the other. -/
theorem isMatch_of_sameCase (actions actions' : List Action) {letters letters' : List Char}
    (hletters : o.flags = some letters) (hletters' : o'.flags = some letters')
    (hproper : Flags.Proper letters) (hproper' : Flags.Proper letters')
    (hcase : Flags.SameCase letters letters') (hdot : o.dot = o'.dot)
    (candidate pattern : List Char) (negated negated' : Option Bool) :
    ((performAll {} actions).isMatch candidate pattern (some o) negated).2 =
        ((performAll {} actions').isMatch candidate pattern (some o') negated').2 ∧
      ∀ e, ((performAll {} actions).isMatch candidate pattern (some o) negated).2 = .error e →
        ∃ cause, e = .invalidPattern pattern cause := by
  obtain ⟨f, hf, hagree, hi, ha⟩ := hproper.exists_ofLetters
  obtain ⟨f', hf', hagree', hi', ha'⟩ := hproper'.exists_ofLetters
  have hflags : MatchOptions.regexFlags (some o) = .ok f := by
    rw [MatchOptions.regexFlags, hletters]
    exact hf
  have hflags' : MatchOptions.regexFlags (some o') = .ok f' := by
    rw [MatchOptions.regexFlags, hletters']
    exact hf'
  have hrule := Flags.caseRule_of_sameCase hcase hi ha hi' ha'
  have hregex := CompiledGlob.accepts_regexOf_congr hflags hflags' hdot hagree hagree' hrule pattern
    candidate
  rw [(faithful_empty.performAll actions).isMatch_snd hflags,
    (faithful_empty.performAll actions').isMatch_snd hflags', hregex, Flags.ignoreCase_congr hrule]
  refine ⟨rfl, fun e he => ?_⟩
  split at he
  · cases he
  · split at he
    · cases he
    · rw [CompiledGlob.regexOf_eq hflags'] at he
      generalize CompiledRegex.compile _ f' = compiled at he
      cases compiled with
      | error cause =>
        cases he
        exact ⟨cause, rfl⟩
      | ok r => cases he

/-- Blanks, a line feed and a hash of a pattern count under the verbose flag as without it. -/
theorem isMatch_of_sameCase_verbose :
    ((performAll {} [.clearCache]).isMatch "a b#\n# c".toList "a b#\n[ #]*".toList
        (some { flags := some "xxms".toList }) none).2 = .ok true ∧
      ((performAll {} []).isMatch "a b#\n# c".toList "a b#\n[ #]*".toList
        (some { flags := some "a".toList }) (some true)).2 = .ok true := by
  have hsame := (@isMatch_of_sameCase { flags := some "xxms".toList } { flags := some "a".toList }
    [.clearCache] [] _ _ rfl rfl ⟨by simp, by decide⟩ ⟨by simp, by decide⟩
    ⟨by decide, by decide⟩ rfl "a b#\n# c".toList "a b#\n[ #]*".toList none (some true)).1
  have hplain : ((performAll {} []).isMatch "a b#\n# c".toList "a b#\n[ #]*".toList
      (some { flags := some "a".toList }) (some true)).2 = .ok true := by decide +kernel
  exact ⟨hsame.trans hplain, hplain⟩

end Matcher

end Wildcard
