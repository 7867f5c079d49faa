/-!
# Patterns as trees

A pattern is a chain of items in the order of its text: characters that stand bare, characters
behind a backslash, bracket classes, and groups in braces or parentheses whose contents are again
a pattern. A delimiter without a partner is a bare character, so every text is a pattern, and
`Glob.text` gives it back.

* `Glob.pairs` lists the places of all openers and closers (`pairs` of a joined pattern:
  `pairs_append`).
* `Glob.splitOn` cuts a pattern at a character that stands bare at its own level, and
  `text_splitOn` says that nothing but that character is lost.
-/

namespace Wildcard

namespace Glob

/-- The two kinds of groups. -/
inductive Grouping where
  | braces
  | parens
  deriving DecidableEq, Repr

/-- The delimiter that opens a group. -/
def Grouping.opener : Grouping → Char
  | braces => '{'
  | parens => '('

/-- The delimiter that closes a group. -/
def Grouping.closer : Grouping → Char
  | braces => '}'
  | parens => ')'

end Glob

/-- A pattern: a chain of items in the order of its text. -/
inductive Glob where
  | done
  /-- A character that stands bare. -/
  | char (c : Char) (rest : Glob)
  /-- A character behind a backslash. -/
  | escaped (c : Char) (rest : Glob)
  /-- A bracket class, given by the text between its brackets. -/
  | bracket (body : List Char) (rest : Glob)
  | group (g : Glob.Grouping) (body rest : Glob)
  deriving DecidableEq, Repr

namespace Glob

/-! ## 1. The text -/

/-- The text of a pattern. -/
def text : Glob → List Char
  | done => []
  | char c rest => c :: rest.text
  | escaped c rest => '\\' :: c :: rest.text
  | bracket body rest => '[' :: body ++ ']' :: rest.text
  | group g body rest => g.opener :: body.text ++ g.closer :: rest.text

/-- How many characters the text of a pattern has. -/
def length : Glob → Nat
  | done => 0
  | char _ rest => rest.length + 1
  | escaped _ rest => rest.length + 2
  | bracket body rest => body.length + 2 + rest.length
  | group _ body rest => body.length + 2 + rest.length

@[simp] theorem length_text (g : Glob) : g.text.length = g.length := by
  induction g with
  | done => rfl
  | char c rest ih => simp [text, length, ih]
  | escaped c rest ih => simp [text, length, ih]
  | bracket body rest ih => simp [text, length, ih]; omega
  | group g body rest ihb ihr => simp [text, length, ihb, ihr]; omega

/-- Two patterns one after the other. -/
def append : Glob → Glob → Glob
  | done, s => s
  | char c rest, s => char c (rest.append s)
  | escaped c rest, s => escaped c (rest.append s)
  | bracket body rest, s => bracket body (rest.append s)
  | group g body rest, s => group g body (rest.append s)

instance : Append Glob := ⟨append⟩

@[simp] theorem done_append (s : Glob) : done ++ s = s := rfl

@[simp] theorem char_append (c : Char) (r s : Glob) : char c r ++ s = char c (r ++ s) := rfl

@[simp] theorem escaped_append (c : Char) (r s : Glob) : escaped c r ++ s = escaped c (r ++ s) :=
  rfl

@[simp] theorem bracket_append (b : List Char) (r s : Glob) :
    bracket b r ++ s = bracket b (r ++ s) := rfl

@[simp] theorem group_append (g : Grouping) (b r s : Glob) :
    group g b r ++ s = group g b (r ++ s) := rfl

@[simp] theorem append_done (r : Glob) : r ++ done = r := by
  induction r with
  | done => rfl
  | char c rest ih => simp [ih]
  | escaped c rest ih => simp [ih]
  | bracket b rest ih => simp [ih]
  | group g b rest _ ih => simp [ih]

theorem append_assoc (r s t : Glob) : r ++ s ++ t = r ++ (s ++ t) := by
  induction r with
  | done => rfl
  | char c rest ih => simp [ih]
  | escaped c rest ih => simp [ih]
  | bracket b rest ih => simp [ih]
  | group g b rest _ ih => simp [ih]

/-- Joining patterns joins their texts. -/
@[simp] theorem text_append (r s : Glob) : (r ++ s).text = r.text ++ s.text := by
  induction r with
  | done => rfl
  | char c rest ih => simp [text, ih]
  | escaped c rest ih => simp [text, ih]
  | bracket b rest ih => simp [text, ih]
  | group g b rest _ ih => simp [text, ih]

/-- The items of the first pattern, last one first, in front of the second. -/
def reverseOnto : Glob → Glob → Glob
  | done, s => s
  | char c rest, s => rest.reverseOnto (char c s)
  | escaped c rest, s => rest.reverseOnto (escaped c s)
  | bracket body rest, s => rest.reverseOnto (bracket body s)
  | group g body rest, s => rest.reverseOnto (group g body s)

/-! ## 2. Delimiters and their partners -/

/-- The places of all openers and closers, in the order of the openers; the text begins at
    `start`. -/
def pairs (start : Nat) : Glob → List (Nat × Nat)
  | done => []
  | char _ rest => rest.pairs (start + 1)
  | escaped _ rest => rest.pairs (start + 2)
  | bracket body rest =>
    (start, start + body.length + 1) :: rest.pairs (start + body.length + 2)
  | group _ body rest =>
    (start, start + body.length + 1) ::
      (body.pairs (start + 1) ++ rest.pairs (start + body.length + 2))

@[simp] theorem length_append (r s : Glob) : (r ++ s).length = r.length + s.length := by
  rw [← length_text, text_append, List.length_append, length_text, length_text]

theorem pairs_append (start : Nat) (r s : Glob) :
    (r ++ s).pairs start = r.pairs start ++ s.pairs (start + r.length) := by
  induction r generalizing start with
  | done => simp [pairs, length]
  | char c rest ih => simp [pairs, length, ih, Nat.add_assoc, Nat.add_comm]
  | escaped c rest ih => simp [pairs, length, ih, Nat.add_assoc, Nat.add_comm]
  | bracket b rest ih => simp [pairs, length, ih, Nat.add_assoc]
  | group g b rest _ ih => simp [pairs, length, ih, Nat.add_assoc, Nat.add_comm, Nat.add_left_comm]

/-! ## 3. Cutting -/

/-- Cuts a pattern at each bare `delimiter` of its own level: the first part, and the others. -/
def splitOn (delimiter : Char) : Glob → Glob × List Glob
  | done => (done, [])
  | char c rest =>
    let (first, others) := rest.splitOn delimiter
    if c = delimiter then (done, first :: others) else (char c first, others)
  | escaped c rest =>
    let (first, others) := rest.splitOn delimiter
    (escaped c first, others)
  | bracket body rest =>
    let (first, others) := rest.splitOn delimiter
    (bracket body first, others)
  | group g body rest =>
    let (first, others) := rest.splitOn delimiter
    (group g body first, others)

/-- Cutting loses nothing but the delimiters. -/
theorem text_splitOn (d : Char) (g : Glob) :
    (g.splitOn d).1.text ++ (g.splitOn d).2.flatMap (fun p => d :: p.text) = g.text := by
  induction g with
  | done => rfl
  | char c rest ih =>
    simp only [splitOn]
    split
    · rename_i h
      simp [text, ← ih, h]
    · simp [text, ← ih]
  | escaped c rest ih => simp [splitOn, text, ← ih]
  | bracket b rest ih => simp [splitOn, text, ← ih]
  | group g b rest _ ih => simp [splitOn, text, ← ih]

/-- Whether a bare `delimiter` stands at the pattern's own level. -/
def hasBare (delimiter : Char) : Glob → Bool
  | done => false
  | char c rest => c == delimiter || rest.hasBare delimiter
  | escaped _ rest => rest.hasBare delimiter
  | bracket _ rest => rest.hasBare delimiter
  | group _ _ rest => rest.hasBare delimiter

/-- A pattern is cut into more than one part exactly if it has a bare delimiter. -/
theorem splitOn_snd_eq_nil {d : Char} {g : Glob} : (g.splitOn d).2 = [] ↔ g.hasBare d = false := by
  induction g with
  | done => simp [splitOn, hasBare]
  | char c rest ih =>
    simp only [splitOn, hasBare]
    split
    · rename_i h
      simp [h]
    · rename_i h
      simp [h, ih]
  | escaped c rest ih => simpa [splitOn, hasBare] using ih
  | bracket b rest ih => simpa [splitOn, hasBare] using ih
  | group g b rest _ ih => simpa [splitOn, hasBare] using ih

end Glob

end Wildcard
