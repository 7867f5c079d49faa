import Wildcard.Proofs.Complement
import Wildcard.Proofs.Contents
import Wildcard.Proofs.Shortcut

/-!
# What a registered regex governs

A regex that was registered for a text answers the calls without options that compile the text: the
predicate and the filters, whatever happens in between, until the cache is cleared or the text is
registered again. Deciding about one candidate compiles a pattern that is not blank only if it
holds a wildcard. A pattern without one is compared with the candidate before the cache is asked,
so there the regex governs only as far as it agrees with the comparison.

* `perform_predicate_of_get?`, `perform_isMatch_of_get?`, `matchOneOf_of_get?`: each answer from the
  entry that the cache holds.
* `perform_of_registered`: the answers in every run, and when the regex governs them all.
-/

namespace Wildcard

/-- Whether a regex is found in a candidate, or in the candidate with a slash for each run of
    backslashes. -/
def Search.isFoundEitherWay (r : Search) (c : List Char) : Bool :=
  r.isFoundIn c || r.isFoundIn (Path.unify c)

/-- The candidate is only tried again if that makes a difference. -/
theorem Search.accepts_eq (r : Search) (c : List Char) :
    r.accepts c = r.isFoundEitherWay c := by
  rw [Bool.eq_iff_iff, isFoundEitherWay, Bool.or_eq_true]
  exact CompiledGlob.accepts_iff { pattern := [], regex := r } c

namespace Matcher

/-! ## 1. Answers from the cache -/

section Answers

variable {m : Matcher} {p : List Char} {g : CompiledGlob}

theorem regexFor_of_get? (hg : m.cache.get? p = some g) : m.regexFor p none = .ok g.regex := by
  unfold regexFor
  rw [if_pos (by rfl), hg]

theorem perform_predicate_of_get? (hg : m.cache.get? p = some g) (negated : Option Bool)
    (c : List Char) :
    (m.perform (.predicate (.text p) none negated [.text c])).2 =
      .each [.ok (g.regex.isFoundEitherWay c)] := by
  have hregex : m.makeRegexOf (.text p) none negated = (m, .ok g) := makeRegex_of_get? hg negated
  have haccepts : acceptsValue g (.text c) = .ok (g.regex.accepts c) := rfl
  rw [perform, hregex]
  simp only [List.map_cons, List.map_nil, haccepts, Search.accepts_eq]

/-- **Deciding about a candidate** asks the cache only if the pattern holds a wildcard. -/
theorem perform_isMatch_of_get? {record : List Deposit} (h : Recorded record m)
    (hg : m.cache.get? p = some g) (hblank : Text.isBlankText p = false) (negated : Option Bool)
    (c : List Char) :
    (m.perform (.isMatch [.text c] (.text p) none negated)).2 =
      .each [.ok (if isLiteralPattern p then matchesLiteral c p
        else g.regex.isFoundEitherWay c)] := by
  have hanswer : (m.perform (.isMatch [.text c] (.text p) none negated)).2 =
      .each [(m.isMatch c p none negated).2] := rfl
  rw [hanswer, h.faithful.answer_isMatch rfl, hblank, regexFor_of_get? hg]
  simp only [Except.map, Search.accepts_eq]
  cases isLiteralPattern p <;> rfl

/-- **Filtering** one candidate keeps it exactly if the entry accepts it. -/
theorem matchOneOf_of_get? (hg : m.cache.get? p = some g) (hpositive : p.head? ≠ some '!')
    (c : List Char) :
    (m.matchOneOf (.list [.text c]) (.text p) none).2 =
      .ok ([c].filter g.regex.isFoundEitherWay) := by
  have heither : g.regex.accepts = g.regex.isFoundEitherWay := funext g.regex.accepts_eq
  rw [matchOneOf_snd, negation_of_head? hpositive, regexFor_of_get? hg, ← heither]
  simp [Value.asSequence, Value.asCandidates, Value.asCandidate, Except.bind, Except.map]

end Answers

/-! ## 2. Runs -/

/-- The entry stands from its registration on. -/
theorem get?_of_registered (before : List Action) {more : List Action} {p : List Char}
    (r : Search) (hmore : ∀ a ∈ more, a ≠ .clearCache ∧ a.registersFor p = false) :
    (performAll {} (before ++ .register (.text p) (.regex r) :: more)).cache.get? p =
      some { globOfRegex p r with serial := (performAll {} before).made } := by
  have hbefore : Recorded (recordOf {} [] before) (performAll {} before) :=
    recorded_empty.performAll before
  have hrun : performAll {} (before ++ .register (.text p) (.regex r) :: more) =
      ((performAll {} before).register p (globOfRegex p r)).performAll more := List.foldl_append
  rw [hrun]
  refine get?_performAll (hbefore.register p (globOfRegex p r)) ?_ hmore
  exact (PatternCache.get?_insert _ _ _ _).trans (if_pos rfl)

/-- **A regex that was registered** for a text that is not blank governs the predicate and the
    filters through all that follows, unless the cache is cleared or the text registered again.
    Deciding about single candidates it governs exactly if the text holds a wildcard, or the regex
    is found in the very candidates that read like the text. -/
theorem perform_of_registered {before more : List Action} {p : List Char} {r : Search}
    (hblank : Text.isBlankText p = false)
    (hmore : ∀ a ∈ more, a ≠ .clearCache ∧ a.registersFor p = false) :
    let m := performAll {} (before ++ .register (.text p) (.regex r) :: more)
    (∀ negated c, (m.perform (.predicate (.text p) none negated [.text c])).2 =
      .each [.ok (r.isFoundEitherWay c)]) ∧
    (p.head? ≠ some '!' → ∀ c,
      (m.perform (.matchOne (.list [.text c]) (.text p) none)).2 =
          .texts ([c].filter r.isFoundEitherWay) ∧
        (m.perform (.matchAll (.list [.text c]) (.list [.text p]) none)).2 =
          .texts ([c].filter r.isFoundEitherWay)) ∧
    (∀ negated c, (m.perform (.isMatch [.text c] (.text p) none negated)).2 =
      .each [.ok (if isLiteralPattern p then matchesLiteral c p else r.isFoundEitherWay c)]) ∧
    (∀ negated, (∀ c, (m.perform (.isMatch [.text c] (.text p) none negated)).2 =
        .each [.ok (r.isFoundEitherWay c)]) ↔
      (isLiteralPattern p = true → ∀ c, (r.isFoundEitherWay c = true ↔
        c = p ∨ Path.unify c = Path.unify p ∨ currentDirectory? p = some c))) := by
  intro m
  have hrecorded : Recorded (recordOf {} [] (before ++ .register (.text p) (.regex r) :: more)) m :=
    recorded_empty.performAll _
  have hg : m.cache.get? p = some { globOfRegex p r with serial := (performAll {} before).made } :=
    get?_of_registered before r hmore
  have hisMatch (negated : Option Bool) (c : List Char) :
      (m.perform (.isMatch [.text c] (.text p) none negated)).2 =
        .each [.ok (if isLiteralPattern p then matchesLiteral c p else r.isFoundEitherWay c)] :=
    perform_isMatch_of_get? hrecorded hg hblank negated c
  refine ⟨perform_predicate_of_get? hg, ?_, hisMatch, ?_⟩
  · intro hpositive c
    have hone := matchOneOf_of_get? hg hpositive c
    have hanswer : (m.perform (.matchOne (.list [.text c]) (.text p) none)).2 =
        .texts ([c].filter r.isFoundEitherWay) := by
      change Answer.ofResult .texts (m.matchOneOf (.list [.text c]) (.text p) none).2 = _
      rw [hone]
      rfl
    exact ⟨hanswer, hanswer⟩
  · intro negated
    have hsame (a b : Bool) : Answer.each [.ok a] = .each [.ok b] ↔ (b = true ↔ a = true) := by
      rw [← Bool.eq_iff_iff]
      simp [eq_comm]
    simp only [hisMatch, hsame]
    cases isLiteralPattern p with
    | false => simp
    | true => simp only [if_true, true_imp_iff, matchesLiteral_iff]

/-- The registered regex is found in every text but the empty one, whatever the text that it is
    registered for would be compiled to. -/
theorem perform_of_registered_anything :
    let m := performAll {} ([.isMatch [.text "a.c".toList] (.text "*.c".toList) none none] ++
      .register (.text "*.c".toList) (.regex anything) ::
        [.makeRegex (.text "*.c".toList) none none,
          .register (.text "*.h".toList) (.regex anything)])
    (∀ c, (m.perform (.isMatch [.text c] (.text "*.c".toList) none none)).2 =
        .each [.ok (anything.isFoundEitherWay c)]) ∧
      (m.perform (.matchOne (.list [.text "a.h".toList]) (.text "*.c".toList) none)).2 =
        .texts ["a.h".toList] := by
  have hanswers := @perform_of_registered
    [.isMatch [.text "a.c".toList] (.text "*.c".toList) none none]
    [.makeRegex (.text "*.c".toList) none none, .register (.text "*.h".toList) (.regex anything)]
    "*.c".toList anything (by decide) (by simp [Action.registersFor])
  obtain ⟨-, hfilter, hdecide, -⟩ := hanswers
  exact ⟨hdecide none, (hfilter (by decide) "a.h".toList).1⟩

/-- A text without wildcards is found to match itself, though the regex registered for it is not
    found there. -/
theorem perform_isMatch_ne_registered :
    ∃ bar, CompiledRegex.compile "bar".toList {} = .ok bar ∧
      let m := performAll {} [.register (.text "foo".toList) (.regex bar.search)]
      bar.search.isFoundEitherWay "foo".toList = false ∧
        (m.perform (.predicate (.text "foo".toList) none none [.text "foo".toList])).2 =
            .each [.ok false] ∧
          (m.perform (.isMatch [.text "foo".toList] (.text "foo".toList) none none)).2 =
            .each [.ok true] := by
  have hbar : CompiledRegex.compile "bar".toList {} = .ok _ := rfl
  exact ⟨_, hbar, by decide +kernel, rfl, rfl⟩

end Matcher

end Wildcard
