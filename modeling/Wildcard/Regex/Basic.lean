import Wildcard.Regex.Literal

/-!
# Regexes as written

A regex is kept in the shape of its text: a chain of items read from left to right, where a bar
ends one alternative and starts the next. So joining two regexes is joining their texts
(`text_append`), and every place of the text belongs to one place of the chain.

* A set is the list of spelled characters between its brackets; `Member.ofLiterals` groups them
  into single characters and ranges.
* `Regex.branches` gives the alternatives of a chain, none of which holds a bar at its own level.
-/

namespace Wildcard

/-! ## 1. Items -/

namespace Regex

/-- How often an item may be repeated. -/
inductive Quantifier where
  | once
  /-- `?`: at most once. -/
  | optional
  /-- `*`: any number of times. -/
  | star
  /-- `+`: at least once. -/
  | plus
  /-- `*?`: any number of times, the fewest first. -/
  | lazyStar
  deriving DecidableEq, Repr

/-- What a group does with its contents. -/
inductive GroupKind where
  /-- `(?:`: the contents are matched. -/
  | plain
  /-- `(?=`: the contents must match ahead; nothing is consumed. -/
  | ahead
  /-- `(?!`: the contents must not match ahead; nothing is consumed. -/
  | notAhead
  deriving DecidableEq, Repr

/-- An item that tests a place and consumes nothing. -/
inductive Anchor where
  /-- `\A`: the beginning of the text. -/
  | start
  /-- `\Z`: the end of the text. -/
  | stop
  /-- `^`: the beginning of the text, or of a line. -/
  | lineStart
  /-- `$`: the end of the text or of its last line, or of a line. -/
  | lineStop
  deriving DecidableEq, Repr

/-- An item that consumes one character. -/
inductive Single where
  | literal (l : Literal)
  /-- A character that one of several alternatives consists of; it is written like any other, but
      compared like a member of a set. -/
  | choice (l : Literal)
  /-- A set of characters, given by what is written between its brackets. -/
  | set (negated : Bool) (items : List Literal)
  /-- `.`: any character, as a rule not a line feed. -/
  | dot
  deriving DecidableEq, Repr

end Regex

/-- A regex: a chain of items in the order of its text. -/
inductive Regex where
  | done
  | single (s : Regex.Single) (q : Regex.Quantifier) (rest : Regex)
  | anchor (a : Regex.Anchor) (rest : Regex)
  | group (k : Regex.GroupKind) (body : Regex) (q : Regex.Quantifier) (rest : Regex)
  /-- The end of one alternative and the beginning of the next. -/
  | bar (rest : Regex)
  deriving DecidableEq, Repr

namespace Regex

/-! ## 2. The text -/

/-- How a quantifier is written. -/
def Quantifier.text : Quantifier → List Char
  | once => []
  | optional => ['?']
  | star => ['*']
  | plus => ['+']
  | lazyStar => ['*', '?']

/-- How a group is opened. -/
def GroupKind.text : GroupKind → List Char
  | plain => ['(', '?', ':']
  | ahead => ['(', '?', '=']
  | notAhead => ['(', '?', '!']

/-- How an anchor is written. -/
def Anchor.text : Anchor → List Char
  | start => ['\\', 'A']
  | stop => ['\\', 'Z']
  | lineStart => ['^']
  | lineStop => ['$']

/-- How a single-character item is written. -/
def Single.text : Single → List Char
  | literal l => l.text
  | choice l => l.text
  | set false items => '[' :: items.flatMap Literal.text ++ [']']
  | set true items => '[' :: '^' :: items.flatMap Literal.text ++ [']']
  | dot => ['.']

/-- How a regex is written. -/
def text : Regex → List Char
  | done => []
  | single s q rest => s.text ++ q.text ++ rest.text
  | anchor a rest => a.text ++ rest.text
  | group k body q rest => k.text ++ body.text ++ ')' :: q.text ++ rest.text
  | bar rest => '|' :: rest.text

/-- Two regexes one after the other. -/
def append : Regex → Regex → Regex
  | done, s => s
  | single c q rest, s => single c q (rest.append s)
  | anchor a rest, s => anchor a (rest.append s)
  | group k body q rest, s => group k body q (rest.append s)
  | bar rest, s => bar (rest.append s)

instance : Append Regex := ⟨append⟩

@[simp] theorem done_append (s : Regex) : done ++ s = s := rfl

@[simp] theorem single_append (c : Single) (q : Quantifier) (r s : Regex) :
    single c q r ++ s = single c q (r ++ s) := rfl

@[simp] theorem anchor_append (a : Anchor) (r s : Regex) : anchor a r ++ s = anchor a (r ++ s) :=
  rfl

@[simp] theorem group_append (k : GroupKind) (b : Regex) (q : Quantifier) (r s : Regex) :
    group k b q r ++ s = group k b q (r ++ s) := rfl

@[simp] theorem bar_append (r s : Regex) : bar r ++ s = bar (r ++ s) := rfl

@[simp] theorem append_done (r : Regex) : r ++ done = r := by
  induction r with
  | done => rfl
  | single c q rest ih => simp [ih]
  | anchor a rest ih => simp [ih]
  | group k b q rest _ ih => simp [ih]
  | bar rest ih => simp [ih]

theorem append_assoc (r s t : Regex) : r ++ s ++ t = r ++ (s ++ t) := by
  induction r with
  | done => rfl
  | single c q rest ih => simp [ih]
  | anchor a rest ih => simp [ih]
  | group k b q rest _ ih => simp [ih]
  | bar rest ih => simp [ih]

/-- Joining regexes joins their texts. -/
@[simp] theorem text_append (r s : Regex) : (r ++ s).text = r.text ++ s.text := by
  induction r with
  | done => rfl
  | single c q rest ih => simp [text, ih]
  | anchor a rest ih => simp [text, ih]
  | group k b q rest _ ih => simp [text, ih]
  | bar rest ih => simp [text, ih]

/-! ## 3. Building -/

/-- One character standing for itself. -/
def char (c : Char) (rest : Regex) : Regex := single (.literal (.quote c)) .once rest

/-- Characters standing for themselves, one after the other. -/
def chars (cs : List Char) : Regex := cs.foldr char done

/-- A plain group around a regex. -/
def grouped (body : Regex) (q : Quantifier) : Regex := group .plain body q done

/-- Alternatives with bars between them. -/
def alternatives : Regex → List Regex → Regex
  | r, [] => r
  | r, s :: rest => r ++ bar (alternatives s rest)

/-! ## 4. Alternatives -/

/-- The alternatives of a regex: the first one and those behind the bars at its own level. -/
def branches : Regex → Regex × List Regex
  | done => (done, [])
  | single s q rest => (single s q rest.branches.1, rest.branches.2)
  | anchor a rest => (anchor a rest.branches.1, rest.branches.2)
  | group k body q rest => (group k body q rest.branches.1, rest.branches.2)
  | bar rest => (done, rest.branches.1 :: rest.branches.2)

/-- A regex is its alternatives with bars between them. -/
theorem alternatives_branches (r : Regex) : alternatives r.branches.1 r.branches.2 = r := by
  have cons (f : Regex → Regex) (hf : ∀ r s, f r ++ s = f (r ++ s)) (r : Regex) (rs : List Regex) :
      alternatives (f r) rs = f (alternatives r rs) := by
    cases rs <;> simp [alternatives, hf]
  induction r with
  | done => rfl
  | single s q rest ih => rw [branches, cons (single s q) (fun _ _ => rfl), ih]
  | anchor a rest ih => rw [branches, cons (anchor a) (fun _ _ => rfl), ih]
  | group k b q rest _ ih => rw [branches, cons (group k b q) (fun _ _ => rfl), ih]
  | bar rest ih => simp [branches, alternatives, ih]

/-! ## 5. The members of a set -/

/-- A member of a set. -/
inductive Member where
  | single (c : Char)
  /-- All characters from the first to the last, by code point. -/
  | range (first last : Char)
  deriving DecidableEq, Repr

/-- The members that the spelled characters of a set list: a hyphen standing bare between two
    spelled characters makes a range of them, and a hyphen that stands first, or last, or just
    behind a range, is an ordinary member. -/
def Member.ofLiterals : List Literal → List Member
  | x :: .bare '-' :: y :: rest => .range x.char y.char :: ofLiterals rest
  | x :: rest => .single x.char :: ofLiterals rest
  | [] => []

end Regex

end Wildcard
