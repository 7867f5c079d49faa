import Wildcard.Regex.Matching

/-!
# Alternatives that are a set in effect

Alternatives that consist of one character each, or that agree in all characters but the last, are
matched like a set of those characters. This differs from matching one after the other only where
case is ignored, and only for letters outside the basic plane, for which a set is stricter than a
single character.

`Regex.markChoices` finds such alternatives, within groups and looking through plain groups, and
marks their last characters as choices. Where case counts, a marked regex is matched as before
(`isFound_markChoices`).
-/

namespace Wildcard.Regex

/-! ## 1. Alternatives as lists of single characters -/

/-- A single-character item or an anchor, without regard to its spelling. -/
inductive Plain where
  | char (c : Char)
  | set (negated : Bool) (members : List Member)
  | dot
  | anchor (a : Anchor)
  deriving DecidableEq, Repr

/-- A list without the later ones of equal members. -/
def distinct : List Member → List Member
  | [] => []
  | m :: rest => m :: (distinct rest).filter (· != m)

/-- A single-character item without regard to its spelling. -/
def Single.plain : Single → Plain
  | literal l => .char l.char
  | choice l => .char l.char
  | set negated items =>
    match negated, onlyMember? (Member.ofLiterals items) with
    | false, some c => .char c
    | _, _ => .set negated (distinct (Member.ofLiterals items))
  | dot => .dot

/-- The members that an item contributes to a set. -/
def Plain.members? : Plain → Option (List Member)
  | char c => some [.single c]
  | set false members => some members
  | _ => none

/-- The alternatives as one list that ends in a set, if they are a set in effect: equally long, not
    empty and not all equal, they agree in all items but the last, which contributes to a set. -/
def asSet? (first : List Plain) (others : List (List Plain)) : Option (List Plain) :=
  match first.reverse, first.reverse.head?.bind Plain.members? with
  | _ :: front, some members =>
    let agree := others.all fun o => o.length == first.length && o.dropLast == front.reverse
    let contributed := others.mapM fun o => o.getLast?.bind Plain.members?
    match contributed with
    | some more =>
      if agree && others.any (· != first) then
        some (front.reverse ++ [.set false (distinct (members ++ more.flatten))])
      else none
    | none => none
  | _, _ => none

/-- A group of alternatives as a list, looking through it if there is only one. -/
def joined? : Option (List Plain) × List (Option (List Plain)) → Option (List Plain)
  | (first, []) => first
  | (first, others) =>
    match first, others.mapM id with
    | some f, some os => asSet? f os
    | _, _ => none

/-- The alternatives of a regex as lists of single characters and anchors, where they are such
    lists. -/
def plains : Regex → Option (List Plain) × List (Option (List Plain))
  | done => (some [], [])
  | single s .once rest => ((rest.plains.1).map (s.plain :: ·), rest.plains.2)
  | single _ _ rest => (none, rest.plains.2)
  | anchor a rest => ((rest.plains.1).map (.anchor a :: ·), rest.plains.2)
  | group .plain body .once rest =>
    (match joined? body.plains, rest.plains.1 with
      | some xs, some ys => some (xs ++ ys)
      | _, _ => none, rest.plains.2)
  | group _ _ _ rest => (none, rest.plains.2)
  | bar rest => (some [], rest.plains.1 :: rest.plains.2)

/-! ## 2. Marking -/

/-- A single-character item as a choice. -/
def Single.marked : Single → Single
  | literal l => choice l
  | set false (l :: rest) =>
    if (onlyMember? (Member.ofLiterals (l :: rest))).isSome then choice l
    else set false (l :: rest)
  | s => s

/-- Marks the last character of each alternative; the flag says that the first alternative holds
    a character that was marked. -/
def markLast : Regex → Regex × Bool
  | done => (done, false)
  | single s q rest =>
    if rest.markLast.2 then (single s q rest.markLast.1, true)
    else (single s.marked q rest.markLast.1, true)
  | anchor a rest => (anchor a rest.markLast.1, rest.markLast.2)
  | group k body q rest =>
    if rest.markLast.2 then (group k body q rest.markLast.1, true)
    else (group k body.markLast.1 q rest.markLast.1, body.markLast.2)
  | bar rest => (bar rest.markLast.1, false)

/-- Marks the last characters if the alternatives are a set in effect. -/
def markIfSet (r : Regex) : Regex :=
  match r.plains with
  | (_, []) => r
  | alternatives => if (joined? alternatives).isSome then r.markLast.1 else r

/-- Marks the choices within groups. -/
def markInside : Regex → Regex
  | done => done
  | single s q rest => single s q rest.markInside
  | anchor a rest => anchor a rest.markInside
  | group k body q rest => group k body.markInside.markIfSet q rest.markInside
  | bar rest => bar rest.markInside

/-- Marks the choices of a regex. -/
def markChoices (r : Regex) : Regex := r.markInside.markIfSet

/-! ## 3. What marking keeps -/

/-- The only member of a set is the first character listed. -/
theorem char_of_onlyMember? {l : Literal} {rest : List Literal} {x : Char}
    (h : onlyMember? (Member.ofLiterals (l :: rest)) = some x) : l.char = x := by
  unfold Member.ofLiterals at h
  split at h
  · simp [onlyMember?] at h
  · rename_i heq
    obtain ⟨rfl, rfl⟩ := List.cons.inj heq
    simp only [onlyMember?] at h
    split at h
    · exact Option.some.inj h
    · exact absurd h (by simp)
  · simp [onlyMember?] at h

/-- Where case counts, a choice is matched as before. -/
@[simp] theorem Single.accepts_marked (s : Single) (dotAll : Bool) (c : Char) :
    s.marked.accepts .exact dotAll c = s.accepts .exact dotAll c := by
  cases s with
  | literal l => rfl
  | choice l => rfl
  | dot => rfl
  | set negated items =>
    match negated, items with
    | true, _ => rfl
    | false, [] => rfl
    | false, l :: rest =>
      simp only [marked]
      split
      · rename_i h
        obtain ⟨x, hx⟩ := Option.isSome_iff_exists.1 h
        simp [accepts, isListed, hx, Member.accepts, acceptsChar, char_of_onlyMember? hx]
      · rfl

/-- Where case counts, marking the last characters changes nothing in matching. -/
theorem run_markLast (t : Subject) (h : t.rule = .exact) (r : Regex) (table : List Row) :
    r.markLast.1.run t table = r.run t table := by
  induction r generalizing table with
  | done => rfl
  | single s q rest ih =>
    have same : Single.accepts .exact t.dotAll s.marked = Single.accepts .exact t.dotAll s :=
      funext (s.accepts_marked t.dotAll)
    simp only [markLast]
    split <;> simp [run, ih, h, same]
  | anchor a rest ih => simp [markLast, run, ih]
  | group k body q rest ihb ihr =>
    simp only [markLast]
    split
    · simp [run, ihr]
    · cases k <;> simp [run, ihr, ihb]
  | bar rest ih => simp [markLast, run, ih]

theorem run_markIfSet (t : Subject) (h : t.rule = .exact) (r : Regex) (table : List Row) :
    r.markIfSet.run t table = r.run t table := by
  unfold markIfSet
  split
  · rfl
  · split
    · exact run_markLast t h r table
    · rfl

theorem run_markInside (t : Subject) (h : t.rule = .exact) (r : Regex) (table : List Row) :
    r.markInside.run t table = r.run t table := by
  induction r generalizing table with
  | done => rfl
  | single s q rest ih => simp [markInside, run, ih]
  | anchor a rest ih => simp [markInside, run, ih]
  | group k body q rest ihb ihr => cases k <;> simp [markInside, run, ihr, ihb, run_markIfSet t h]
  | bar rest ih => simp [markInside, run, ih]

/-- Where case counts, a marked regex is found in the same texts. -/
theorem isFound_markChoices (t : Subject) (h : t.rule = .exact) (r : Regex) :
    r.markChoices.isFound t = r.isFound t := by
  simp [isFound, reach, markChoices, run_markIfSet t h, run_markInside t h]

end Wildcard.Regex
