import Wildcard.Regex.Basic

/-!
# Reading a regex

A text is read in two steps. `lex` goes through it from left to right and yields lexemes: single
items, quantifiers, group openers and closers, anchors and bars. `assemble` then goes through the
lexemes from right to left and builds the chain: a closer opens a new chain, the opener of its
group wraps it up, and a quantifier waits for the item on its left. `Regex.lexemes` is what a
regex is written as, lexeme by lexeme, and `assemble_lexemes` says that assembling gives it back.

A verbose reading drops white space outside sets and everything from a number sign to the end of
its line; characters after a backslash are kept.

What is refused is named by its cause: a range in a set whose first character is above its last
(with both spellings and the place), and any construct that these regexes do not have.
-/

namespace Wildcard.Regex

/-! ## 1. Places and errors -/

/-- A place in a text: how many characters stand before it and, if the text has more than one
    line, its line and column, both counted from one. -/
structure Place where
  offset : Nat
  lineAndColumn : Option (Nat × Nat)
  deriving DecidableEq, Repr

/-- The place in `text` behind `offset` characters. -/
def Place.of (text : List Char) (offset : Nat) : Place :=
  let before := text.take offset
  { offset
    lineAndColumn :=
      if '\n' ∈ text then
        some (before.count '\n' + 1, (before.reverse.takeWhile (· ≠ '\n')).length + 1)
      else none }

/-- Why a text is not read. -/
inductive ReadError where
  /-- A range whose first character is above its last. -/
  | reversedRange (first last : Literal) (offset : Nat)
  /-- A construct that these regexes do not have, or a broken one. -/
  | unsupported (offset : Nat)
  deriving DecidableEq, Repr

/-! ## 2. Lexemes -/

/-- One lexeme of a regex. -/
inductive Lexeme where
  | single (s : Single)
  | anchor (a : Anchor)
  | quantifier (q : Quantifier)
  | opener (k : GroupKind)
  | closer
  | bar
  deriving DecidableEq, Repr

/-- The first reversed range among the spelled characters of a set, whose text begins at
    `offset`. The place given is that of the first of the two spellings, counted back from the end
    of the range by the lengths of their labels. -/
def reversedRange? (offset : Nat) : List Literal → Option ReadError
  | x :: .bare '-' :: y :: rest =>
    let stop := offset + x.text.length + 1 + y.text.length
    if y.char < x.char then
      some (.reversedRange x y (stop - (x.label.length + 1 + y.label.length)))
    else reversedRange? stop rest
  | x :: rest => reversedRange? (offset + x.text.length) rest
  | [] => none

/-- Where in a text the reading stands. -/
inductive Mode where
  | outside
  /-- In a comment, which ends with its line. -/
  | comment
  /-- In a set whose spelled characters begin at `offset`; those read so far, the last one
      first. -/
  | inSet (negated : Bool) (offset : Nat) (readSoFar : List Literal)

/-- The white space that a verbose reading drops. -/
def isVerboseBlank (c : Char) : Bool := c ∈ [' ', '\t', '\n', '\r', '\x0b', '\x0c']

/-- Whether a backslash before the character gives a spelled character: it does so before
    everything but the letters and digits of ASCII, of which only some letters name a control
    character. -/
def isEscapable (c : Char) : Bool := (controlLetter? c).isSome || !c.isAlphanum

/-- Reads lexemes from left to right. The number counts the characters already read, and the
    list holds the lexemes read so far, the last one first, which is also how they are given
    back. -/
def lex (verbose : Bool) : Mode → Nat → List Lexeme → List Char → Except ReadError (List Lexeme)
  | .outside, _, read, [] => .ok read
  | .comment, _, read, [] => .ok read
  | .inSet _ _ _, pos, _, [] => .error (.unsupported pos)
  | .comment, pos, read, c :: rest =>
    lex verbose (if c = '\n' then .outside else .comment) (pos + 1) read rest
  | .inSet negated offset soFar, pos, read, '\\' :: 'x' :: h :: l :: rest =>
    if (hexDigit? h).isSome && (hexDigit? l).isSome then
      lex verbose (.inSet negated offset (.hex h l :: soFar)) (pos + 4) read rest
    else .error (.unsupported pos)
  | .inSet negated offset soFar, pos, read, '\\' :: c :: rest =>
    if isEscapable c then
      lex verbose (.inSet negated offset (.escaped c :: soFar)) (pos + 2) read rest
    else .error (.unsupported pos)
  | .inSet negated offset soFar, pos, read, c :: rest =>
    if c = '\\' then .error (.unsupported pos)
    else if c = ']' ∧ soFar ≠ [] then
      match reversedRange? offset soFar.reverse with
      | some e => .error e
      | none => lex verbose .outside (pos + 1) (.single (.set negated soFar.reverse) :: read) rest
    else lex verbose (.inSet negated offset (.bare c :: soFar)) (pos + 1) read rest
  | .outside, pos, read, '\\' :: 'A' :: rest =>
    lex verbose .outside (pos + 2) (.anchor .start :: read) rest
  | .outside, pos, read, '\\' :: 'Z' :: rest =>
    lex verbose .outside (pos + 2) (.anchor .stop :: read) rest
  | .outside, pos, read, '\\' :: 'x' :: h :: l :: rest =>
    if (hexDigit? h).isSome && (hexDigit? l).isSome then
      lex verbose .outside (pos + 4) (.single (.literal (.hex h l)) :: read) rest
    else .error (.unsupported pos)
  | .outside, pos, read, '\\' :: c :: rest =>
    if isEscapable c then
      lex verbose .outside (pos + 2) (.single (.literal (.escaped c)) :: read) rest
    else .error (.unsupported pos)
  | .outside, pos, read, '[' :: '^' :: rest =>
    lex verbose (.inSet true (pos + 2) []) (pos + 2) read rest
  | .outside, pos, read, '[' :: rest => lex verbose (.inSet false (pos + 1) []) (pos + 1) read rest
  | .outside, pos, read, '(' :: '?' :: ':' :: rest =>
    lex verbose .outside (pos + 3) (.opener .plain :: read) rest
  | .outside, pos, read, '(' :: '?' :: '=' :: rest =>
    lex verbose .outside (pos + 3) (.opener .ahead :: read) rest
  | .outside, pos, read, '(' :: '?' :: '!' :: rest =>
    lex verbose .outside (pos + 3) (.opener .notAhead :: read) rest
  | .outside, pos, read, '*' :: '?' :: rest =>
    lex verbose .outside (pos + 2) (.quantifier .lazyStar :: read) rest
  | .outside, pos, read, c :: rest =>
    if verbose && isVerboseBlank c then lex verbose .outside (pos + 1) read rest
    else if verbose && c = '#' then lex verbose .comment (pos + 1) read rest
    else match c with
      | '\\' | '(' | '{' => .error (.unsupported pos)
      | ')' => lex verbose .outside (pos + 1) (.closer :: read) rest
      | '|' => lex verbose .outside (pos + 1) (.bar :: read) rest
      | '*' => lex verbose .outside (pos + 1) (.quantifier .star :: read) rest
      | '+' => lex verbose .outside (pos + 1) (.quantifier .plus :: read) rest
      | '?' => lex verbose .outside (pos + 1) (.quantifier .optional :: read) rest
      | '.' => lex verbose .outside (pos + 1) (.single .dot :: read) rest
      | '^' => lex verbose .outside (pos + 1) (.anchor .lineStart :: read) rest
      | '$' => lex verbose .outside (pos + 1) (.anchor .lineStop :: read) rest
      | _ => lex verbose .outside (pos + 1) (.single (.literal (.bare c)) :: read) rest

/-! ## 3. Assembling -/

/-- The state of assembling: the chain behind the place reached, the quantifier that waits for
    the item before it, and the chains and quantifiers of the groups whose closers were met. -/
structure Assembly where
  chain : Regex := .done
  waiting : Option Quantifier := none
  outer : List (Regex × Option Quantifier) := []

/-- How often an item is repeated whose quantifier is the one waiting. -/
def Assembly.quantifier (a : Assembly) : Quantifier := a.waiting.getD .once

/-- Takes one more lexeme on the left. `none` if it does not fit: a quantifier with nothing to
    repeat, a second quantifier, or an opener without its closer. -/
def Assembly.step (a : Assembly) : Lexeme → Option Assembly
  | .single s => some { a with chain := .single s a.quantifier a.chain, waiting := none }
  | .quantifier q =>
    match a.waiting with
    | none => some { a with waiting := some q }
    | some _ => none
  | .anchor x =>
    match a.waiting with
    | none => some { a with chain := .anchor x a.chain }
    | some _ => none
  | .bar =>
    match a.waiting with
    | none => some { a with chain := .bar a.chain }
    | some _ => none
  | .closer => some ⟨.done, none, (a.chain, a.waiting) :: a.outer⟩
  | .opener k =>
    match a.waiting, a.outer with
    | none, (rest, q) :: outer => some ⟨.group k a.chain (q.getD .once) rest, none, outer⟩
    | _, _ => none

/-- Takes lexemes, the last one first. -/
def Assembly.steps : Assembly → List Lexeme → Option Assembly
  | a, [] => some a
  | a, l :: rest =>
    match a.step l with
    | some b => b.steps rest
    | none => none

/-- The regex of a list of lexemes, the last one first. -/
def assemble (lexemes : List Lexeme) : Option Regex :=
  match Assembly.steps {} lexemes with
  | some ⟨chain, none, []⟩ => some chain
  | _ => none

/-- Reads a regex from its text. -/
def read (verbose : Bool) (text : List Char) : Except ReadError Regex :=
  match lex verbose .outside 0 [] text with
  | .error e => .error e
  | .ok lexemes =>
    match assemble lexemes with
    | some r => .ok r
    | none => .error (.unsupported text.length)

/-! ## 4. The lexemes of a regex -/

/-- The lexeme that a quantifier is written as. -/
def Quantifier.lexemes : Quantifier → List Lexeme
  | once => []
  | q => [.quantifier q]

/-- What a regex is written as, in the order of its text. -/
def lexemes : Regex → List Lexeme
  | done => []
  | single s q rest => .single s :: q.lexemes ++ rest.lexemes
  | anchor a rest => .anchor a :: rest.lexemes
  | group k body q rest => .opener k :: body.lexemes ++ .closer :: q.lexemes ++ rest.lexemes
  | bar rest => .bar :: rest.lexemes

theorem Assembly.steps_append (a : Assembly) (xs ys : List Lexeme) :
    a.steps (xs ++ ys) = (a.steps xs).bind (·.steps ys) := by
  induction xs generalizing a with
  | nil => rfl
  | cons x xs ih =>
    simp only [List.cons_append, steps]
    cases a.step x with
    | none => rfl
    | some b => simp [ih]

/-- A quantifier's lexeme leaves the quantifier waiting. -/
theorem Assembly.steps_quantifier (q : Quantifier) (chain : Regex)
    (outer : List (Regex × Option Quantifier)) :
    ∃ w, (⟨chain, none, outer⟩ : Assembly).steps q.lexemes = some ⟨chain, w, outer⟩ ∧
      w.getD .once = q := by
  cases q <;> simp [Quantifier.lexemes, steps, step]

/-- Taking the lexemes of a regex from the right puts the regex in front of the chain. -/
theorem Assembly.steps_lexemes (r : Regex) (chain : Regex)
    (outer : List (Regex × Option Quantifier)) :
    (⟨chain, none, outer⟩ : Assembly).steps r.lexemes.reverse =
      some ⟨r ++ chain, none, outer⟩ := by
  have rev (q : Quantifier) : q.lexemes.reverse = q.lexemes := by cases q <;> rfl
  induction r generalizing chain outer with
  | done => rfl
  | single s q rest ih =>
    obtain ⟨w, hw, hq⟩ := steps_quantifier q (rest ++ chain) outer
    simp [lexemes, List.reverse_append, steps_append, ih, rev, hw, steps, step, quantifier, hq]
  | anchor a rest ih => simp [lexemes, steps_append, ih, steps, step]
  | bar rest ih => simp [lexemes, steps_append, ih, steps, step]
  | group k body q rest ihb ihr =>
    obtain ⟨w, hw, hq⟩ := steps_quantifier q (rest ++ chain) outer
    simp [lexemes, List.reverse_append, steps_append, ihr, rev, hw, steps, step, ihb, hq]

/-- Assembling the lexemes of a regex gives the regex back. -/
theorem assemble_lexemes (r : Regex) : assemble r.lexemes.reverse = some r := by
  unfold assemble
  rw [show ({} : Assembly) = ⟨.done, none, []⟩ from rfl, Assembly.steps_lexemes]
  simp

end Wildcard.Regex
