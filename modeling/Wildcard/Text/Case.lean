import Wildcard.Text.Case.Table

/-!
# Upper and lower case

Case mappings of single characters. `lower` and `upper` give one character each, the first one
where the mapping is longer; `upperText` maps a whole text and writes every mapping out in full.

`fold c` is the list of the characters that match `c` where case is ignored: those with the same
lower case, and those whose lower case has the same upper case as that of `c`.
-/

namespace Wildcard.Text

namespace Case

/-- The code point `delta` further on. -/
def shift (n : Nat) (delta : Int) : Char := Char.ofNat (n + delta).toNat

/-- Where the first run that covers a code point maps it to. -/
def target? (runs : List Run) (n : Nat) : Option Char :=
  (runs.find? (·.covers n)).map fun r => shift n r.delta

/-- The code points that runs map to a given one. -/
def sources (runs : List Run) (n : Nat) : List Char :=
  runs.filterMap fun r =>
    let m := (n - r.delta : Int).toNat
    if r.covers m then some (Char.ofNat m) else none

end Case

/-- The lower case of a character. -/
def lower (c : Char) : Char := (Case.target? Case.lowerRuns c.toNat).getD c

/-- The upper case of a character, in full. -/
def upperFull (c : Char) : List Char :=
  match Case.longUppers.find? (·.1 == c.toNat) with
  | some (_, ns) => ns.map Char.ofNat
  | none => [(Case.target? Case.upperRuns c.toNat).getD c]

/-- The first character of the upper case of a character. -/
def upper (c : Char) : Char := (upperFull c).headD c

/-- The upper case of a text. -/
def upperText (cs : List Char) : List Char := cs.flatMap upperFull

/-- The lower case of a letter of ASCII; every other character is kept. -/
def lowerAscii (c : Char) : Char := c.toLower

/-- The other lower-case characters that have the same upper case as a lower-case character. -/
def siblingsOf (c : Char) : List Char :=
  match Case.siblings.find? (·.contains c.toNat) with
  | some ns => (ns.filter (· != c.toNat)).map Char.ofNat
  | none => []

/-- The characters that match a character where case is ignored. -/
def fold (c : Char) : List Char :=
  (lower c :: siblingsOf (lower c)).flatMap fun l => l :: Case.sources Case.lowerRuns l.toNat

end Wildcard.Text
