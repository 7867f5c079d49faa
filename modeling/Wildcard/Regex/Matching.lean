import Wildcard.Regex.Basic
import Wildcard.Text.Case

/-!
# Matching a regex

A regex relates places of a text: it leads from place `i` to place `j` if it matches the
characters between them (`Regex.Leads`). It is found in a text if it leads from some place to
some other one.

`Regex.run` computes with this relation. A `Row` is a set of numbers, written as the bits of one
number, and a table has one row for each place of the text, the end included. `run r t` takes a
table that says what lies behind each place, and gives the table that says what lies behind it
once `r` was matched first: row `i` is the union of the rows `j` of the old table to which `r`
leads from `i`. Every item of the regex is met once, however groups are nested, and only
repetitions look at a table row by row.
-/

namespace Wildcard.Regex

open Wildcard.Text

/-! ## 1. Characters -/

/-- Which differences of case are ignored. -/
inductive CaseRule where
  /-- None. -/
  | exact
  /-- That of the letters of ASCII. -/
  | ascii
  /-- That of all letters. -/
  | unicode
  deriving DecidableEq, Repr

/-- The last character of the basic plane. -/
def lastBasic : Char := '\uffff'

/-- Whether a member of a set is matched by a character. Where case is ignored, a member is
    matched by the characters that differ from it, or from a member of the range, in case alone.
    Outside the basic plane the comparison is cruder: a single member must itself be the
    lower case of the character, and a range must hold that lower case or its upper case. -/
def Member.accepts : CaseRule → Member → Char → Bool
  | .exact, .single x, c => c == x
  | .exact, .range lo hi, c => decide (lo ≤ c) && decide (c ≤ hi)
  | .ascii, .single x, c => lowerAscii c == lowerAscii x
  | .ascii, .range lo hi, c =>
    let l := lowerAscii c
    (decide (lo ≤ l) && decide (l ≤ hi)) || (decide (lo ≤ l.toUpper) && decide (l.toUpper ≤ hi)) ||
      (decide (lastBasic < hi) && decide (lo ≤ upper l) && decide (upper l ≤ hi))
  | .unicode, .single x, c =>
    if lastBasic < x then lower c == x else (fold c).contains x
  | .unicode, .range lo hi, c =>
    let l := lower c
    (fold c).any (fun x => decide (lo ≤ x) && decide (x ≤ hi) && decide (x ≤ lastBasic)) ||
      (decide (lastBasic < hi) &&
        ((decide (lo ≤ l) && decide (l ≤ hi)) || (decide (lo ≤ upper l) && decide (upper l ≤ hi))))

/-- The only character that a list of members holds, if there is just one. -/
def onlyMember? : List Member → Option Char
  | .single x :: rest => if rest.all (· == .single x) then some x else none
  | _ => none

/-- Whether a single character is matched by a character. -/
def acceptsChar : CaseRule → Char → Char → Bool
  | .exact, x, c => c == x
  | .ascii, x, c => lowerAscii c == lowerAscii x
  | .unicode, x, c => (fold c).contains x

/-- Whether a character is listed in a set. A set of just one character is that character. -/
def isListed (rule : CaseRule) (members : List Member) (c : Char) : Bool :=
  match onlyMember? members with
  | some x => acceptsChar rule x c
  | none => members.any (·.accepts rule c)

/-- Whether a single-character item is matched by a character. -/
def Single.accepts (rule : CaseRule) (dotAll : Bool) : Single → Char → Bool
  | literal l, c => acceptsChar rule l.char c
  | choice l, c => (Member.single l.char).accepts rule c
  | set negated items, c => isListed rule (Member.ofLiterals items) c != negated
  | dot, c => dotAll || c != '\n'

/-! ## 2. Rows and tables -/

/-- A set of numbers, written as the bits of one number. -/
abbrev Row := Nat

/-- The union of the rows of a table whose places are members of a set. -/
def pick : Row → List Row → Row
  | _, [] => 0
  | m, r :: rest => if m = 0 then 0 else (if m.testBit 0 then r else 0) ||| pick (m >>> 1) rest

/-- A table that leads from each place to itself; `i` is the first place, of `n`. -/
def identity : Nat → Nat → List Row
  | 0, _ => []
  | n + 1, i => 1 <<< i :: identity n (i + 1)

/-- First one table, then another. -/
def compose (r s : List Row) : List Row := r.map (pick · s)

/-- Either of two tables. -/
def union (r s : List Row) : List Row := List.zipWith (· ||| ·) r s

/-- Any number of times the given table, which leads only forward; `i` is its first place. -/
def closure : Nat → List Row → List Row
  | _, [] => []
  | i, r :: rest =>
    let later := closure (i + 1) rest
    ((1 <<< i) ||| pick (r >>> (i + 1)) later) :: later

/-- Keeps the rows of the places where the condition holds. -/
def keep (condition : List Bool) (t : List Row) : List Row :=
  List.zipWith (fun b r => if b then r else 0) condition t

/-! ## 3. Running a regex over a text -/

/-- A text, and how its characters are compared. -/
structure Subject where
  text : List Char
  rule : CaseRule := .exact
  dotAll : Bool := false
  multiline : Bool := false

namespace Subject

/-- How many places the text has: one before each character, and its end. -/
def places (t : Subject) : Nat := t.text.length + 1

/-- Where an anchor holds: for each place, given the character before it. -/
def anchorHolds (a : Anchor) (multiline : Bool) : Option Char → List Char → List Bool
  | before, [] => [holds before []]
  | before, c :: rest => holds before (c :: rest) :: anchorHolds a multiline (some c) rest
where
  holds (before : Option Char) (rest : List Char) : Bool :=
    match a with
    | .start => before.isNone
    | .stop => rest.isEmpty
    | .lineStart => before.isNone || (multiline && before == some '\n')
    | .lineStop => rest.isEmpty || rest == ['\n'] || (multiline && rest.head? == some '\n')

/-- One character that passes a test, and then a table. -/
def consume (p : Char → Bool) : List Char → List Row → List Row
  | c :: rest, _ :: table =>
    let row := table.headD 0
    (if row != 0 && p c then row else 0) :: consume p rest table
  | _, _ => [0]

/-- A table under a quantifier: `step` puts the item once in front of a table. -/
def quantified (t : Subject) (step : List Row → List Row) : Quantifier → List Row → List Row
  | .once, table => step table
  | .optional, table => union table (step table)
  | .plus, table =>
    let once := step (identity t.places 0)
    compose once (compose (closure 0 once) table)
  | .star, table | .lazyStar, table => compose (closure 0 (step (identity t.places 0))) table

end Subject

/-- The regex in front of a table, in two parts: by its first alternative, and by one of the
    later ones. -/
def run (t : Subject) : Regex → List Row → List Row × List Row
  | done, table => (table, table.map fun _ => 0)
  | single s q rest, table =>
    let (first, later) := rest.run t table
    (t.quantified (Subject.consume (s.accepts t.rule t.dotAll) t.text) q first, later)
  | anchor a rest, table =>
    let (first, later) := rest.run t table
    (keep (Subject.anchorHolds a t.multiline none t.text) first, later)
  | group k body q rest, table =>
    let (first, later) := rest.run t table
    let inside (table : List Row) : List Row :=
      let (f, l) := body.run t table
      union f l
    match k with
    | .plain => (t.quantified inside q first, later)
    | .ahead => (keep ((inside (identity t.places 0)).map (· != 0)) first, later)
    | .notAhead => (keep ((inside (identity t.places 0)).map (· == 0)) first, later)
  | bar rest, table =>
    let (first, later) := rest.run t table
    (table, union first later)

/-- The places to which the regex leads from each place of the text. -/
def reach (t : Subject) (r : Regex) : List Row :=
  let (first, later) := r.run t (identity t.places 0)
  union first later

/-- Whether the regex is found anywhere in the text. -/
def isFound (t : Subject) (r : Regex) : Bool := (r.reach t).any (· != 0)

/-! ## 4. The relation of places -/

/-- Steps of a relation, one after the other. -/
inductive Repeated (step : Nat → Nat → Prop) : Nat → Nat → Prop where
  | refl (i : Nat) : Repeated step i i
  | head {i j k : Nat} : step i j → Repeated step j k → Repeated step i k

/-- A relation of places under a quantifier. -/
def Quantifier.Leads (step : Nat → Nat → Prop) : Quantifier → Nat → Nat → Prop
  | .once, i, j => step i j
  | .optional, i, j => i = j ∨ step i j
  | .plus, i, j => ∃ k, step i k ∧ Repeated step k j
  | .star, i, j | .lazyStar, i, j => Repeated step i j

/-- Where an anchor holds. -/
def Anchor.Holds (t : Subject) : Anchor → Nat → Prop
  | start, i => i = 0
  | stop, i => i = t.text.length
  | lineStart, i => i = 0 ∨ (t.multiline = true ∧ t.text[i - 1]? = some '\n')
  | lineStop, i =>
    i = t.text.length ∨ t.text.drop i = ['\n'] ∨ (t.multiline = true ∧ t.text[i]? = some '\n')

/-- The relation of a regex in two parts: with `false` what its first alternative leads to, with
    `true` what one of the later ones leads to. -/
def LeadsBy (t : Subject) : Regex → Bool → Nat → Nat → Prop
  | done, later, i, j => later = false ∧ i = j
  | single s q rest, later, i, j =>
    if later then rest.LeadsBy t true i j
    else ∃ k, q.Leads (fun a b => b = a + 1 ∧ ∃ c, t.text[a]? = some c ∧
        s.accepts t.rule t.dotAll c = true) i k ∧ rest.LeadsBy t false k j
  | anchor a rest, later, i, j =>
    if later then rest.LeadsBy t true i j else a.Holds t i ∧ rest.LeadsBy t false i j
  | group k body q rest, later, i, j =>
    if later then rest.LeadsBy t true i j
    else match k with
      | .plain => ∃ m, q.Leads (fun a b => ∃ side, body.LeadsBy t side a b) i m ∧
          rest.LeadsBy t false m j
      | .ahead => (∃ side m, body.LeadsBy t side i m) ∧ rest.LeadsBy t false i j
      | .notAhead => (¬ ∃ side m, body.LeadsBy t side i m) ∧ rest.LeadsBy t false i j
  | bar rest, later, i, j => if later then ∃ side, rest.LeadsBy t side i j else i = j

/-- The regex leads from one place of the text to another. -/
def Leads (t : Subject) (r : Regex) (i j : Nat) : Prop := ∃ side, r.LeadsBy t side i j

end Wildcard.Regex
