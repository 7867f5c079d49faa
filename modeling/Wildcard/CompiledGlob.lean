import Wildcard.Regex.Compiled
import Wildcard.Segmentation

/-!
# Compiled patterns and their cache

A compiled pattern is a search with the text of the pattern it stands for, and the segments it was
made from unless it was registered by hand. A cache keeps compiled patterns by their text, in the
order in which the texts came in; an entry that is replaced keeps its place.
-/

namespace Wildcard

/-! ## 1. Compiled patterns -/

/-- A compiled pattern. -/
structure CompiledGlob where
  pattern : List Char
  regex : Search
  segmentation : Option Segmentation := none
  /-- Tells compiled patterns apart that agree in all else: the number of the compilation or
      registration that made it. -/
  serial : Nat := 0

namespace CompiledGlob

/-- The text of the regex. -/
def source (g : CompiledGlob) : List Char := g.regex.source

/-- Whether the regex is found in a candidate. A compiled pattern is anchored at both ends, so for
    it this means the whole candidate. -/
def isFoundIn (g : CompiledGlob) (candidate : List Char) : Bool := g.regex.isFoundIn candidate

end CompiledGlob

/-! ## 2. The cache -/

/-- Compiled patterns by the texts they are kept under. -/
structure PatternCache where
  entries : List (List Char × CompiledGlob) := []

namespace PatternCache

/-- The texts, in the order in which they came in. -/
def keys (c : PatternCache) : List (List Char) := c.entries.map (·.1)

/-- How many entries there are. -/
def size (c : PatternCache) : Nat := c.entries.length

/-- The entry of a text. -/
def get? (c : PatternCache) (key : List Char) : Option CompiledGlob :=
  (c.entries.find? (·.1 == key)).map (·.2)

/-- Whether a text has an entry. -/
def contains (c : PatternCache) (key : List Char) : Bool := c.entries.any (·.1 == key)

/-- The entries with one more, in the place of an entry of the same text if there is one. -/
def insertInto (key : List Char) (g : CompiledGlob) :
    List (List Char × CompiledGlob) → List (List Char × CompiledGlob)
  | [] => [(key, g)]
  | (k, h) :: rest => if k = key then (k, g) :: rest else (k, h) :: insertInto key g rest

/-- The cache with an entry added or replaced. -/
def insert (c : PatternCache) (key : List Char) (g : CompiledGlob) : PatternCache :=
  ⟨insertInto key g c.entries⟩

/-- The cache without entries. -/
def clear (_ : PatternCache) : PatternCache := {}

@[simp] theorem get?_clear (c : PatternCache) (key : List Char) : c.clear.get? key = none := rfl

/-- What is inserted under a text is found there, and all other texts keep their entries. -/
theorem get?_insert (c : PatternCache) (key other : List Char) (g : CompiledGlob) :
    (c.insert key g).get? other = if other = key then some g else c.get? other := by
  obtain ⟨entries⟩ := c
  simp only [insert, get?]
  induction entries with
  | nil =>
    by_cases h : other = key
    · simp [insertInto, h]
    · simp [insertInto, h, Ne.symm h]
  | cons e rest ih =>
    obtain ⟨k, v⟩ := e
    simp only [insertInto]
    split
    · rename_i hk
      subst hk
      by_cases h : other = k
      · simp [h]
      · simp [h, Ne.symm h]
    · rename_i hk
      by_cases h : k = other
      · subst h
        simp [hk]
      · simpa [beq_false_of_ne h] using ih

end PatternCache

end Wildcard
