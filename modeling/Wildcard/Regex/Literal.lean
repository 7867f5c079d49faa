/-!
# Spelled characters of a regex

A character stands in a regex in one of three spellings: as itself, after a backslash, or as two
hexadecimal digits after `\x`. A `Literal` is such a spelling, `Literal.text` is how it is written
and `Literal.char` is the character it stands for. `Literal.quote` and `Literal.member` choose the
spelling under which a given character stands for itself, outside and inside a set; both choices
keep the character (`char_quote`, `char_member`).
-/

namespace Wildcard.Regex

/-! ## 1. Spellings and what they stand for -/

/-- One spelled character. -/
inductive Literal where
  /-- The character itself. -/
  | bare (c : Char)
  /-- A backslash and one character; a few letters name a control character this way. -/
  | escaped (c : Char)
  /-- Two hexadecimal digits after a backslash and an `x`. -/
  | hex (high low : Char)
  deriving DecidableEq, Repr

/-- The control character that a letter names after a backslash. -/
def controlLetter? : Char → Option Char
  | 'a' => some '\x07'
  | 't' => some '\t'
  | 'n' => some '\n'
  | 'v' => some '\x0b'
  | 'f' => some '\x0c'
  | 'r' => some '\r'
  | _ => none

/-- The value of a hexadecimal digit. -/
def hexDigit? (c : Char) : Option Nat :=
  if '0' ≤ c ∧ c ≤ '9' then some (c.toNat - '0'.toNat)
  else if 'a' ≤ c ∧ c ≤ 'f' then some (c.toNat - 'a'.toNat + 10)
  else if 'A' ≤ c ∧ c ≤ 'F' then some (c.toNat - 'A'.toNat + 10)
  else none

namespace Literal

/-- How the spelling is written. -/
def text : Literal → List Char
  | bare c => [c]
  | escaped c => ['\\', c]
  | hex h l => ['\\', 'x', h, l]

/-- The character the spelling stands for. -/
def char : Literal → Char
  | bare c => c
  | escaped c => (controlLetter? c).getD c
  | hex h l => Char.ofNat (16 * (hexDigit? h).getD 0 + (hexDigit? l).getD 0)

/-- The beginning of the spelling by which a message names it: an escape is cut after its first
    character. -/
def label : Literal → List Char
  | bare c => [c]
  | escaped c => ['\\', c]
  | hex _ _ => ['\\', 'x']

/-! ## 2. Spelling a given character -/

/-- The characters that are written after a backslash outside a set: those with a meaning of
    their own there, and those a verbose reading would drop. -/
def isSpecial (c : Char) : Bool :=
  c ∈ ['(', ')', '[', ']', '{', '}', '?', '*', '+', '-', '|', '^', '$', '\\', '.', '&', '~', '#',
    ' ', '\t', '\n', '\r', '\x0b', '\x0c']

/-- The spelling of a character outside a set. -/
def quote (c : Char) : Literal := if isSpecial c then escaped c else bare c

/-- The characters that are written after a backslash inside a set. -/
def isSetSpecial (c : Char) : Bool := c ∈ ['\\', ']', '^', '-', '[', '&', '~', '|']

/-- The spelling of a character inside a set. -/
def member (c : Char) : Literal := if isSetSpecial c then escaped c else bare c

/-- A special character is never a letter that names a control character. -/
theorem controlLetter?_of_isSpecial {c : Char} (h : isSpecial c = true) :
    controlLetter? c = none := by
  simp only [isSpecial, decide_eq_true_eq, List.mem_cons, List.not_mem_nil, or_false] at h
  rcases h with h | h | h | h | h | h | h | h | h | h | h | h | h | h | h | h | h | h | h | h | h | h | h | h <;>
    subst h <;> rfl

theorem controlLetter?_of_isSetSpecial {c : Char} (h : isSetSpecial c = true) :
    controlLetter? c = none := by
  simp only [isSetSpecial, decide_eq_true_eq, List.mem_cons, List.not_mem_nil, or_false] at h
  rcases h with h | h | h | h | h | h | h | h <;> subst h <;> rfl

@[simp] theorem char_quote (c : Char) : (quote c).char = c := by
  unfold quote
  split
  · rename_i h
    simp [char, controlLetter?_of_isSpecial h]
  · rfl

@[simp] theorem char_member (c : Char) : (member c).char = c := by
  unfold member
  split
  · rename_i h
    simp [char, controlLetter?_of_isSetSpecial h]
  · rfl

end Literal

end Wildcard.Regex
