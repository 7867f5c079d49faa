import Wildcard.Regex.Basic

/-!
# Bracket classes of a pattern

A bracket class reaches from `[` to the `]` that closes it; a `!` or `^` behind the `[` negates
it, and a `]` directly behind that is a member. Between the brackets a backslash takes the next
character with it, and a name between `[:` and `:]` is a unit.

* `scan` looks for the closing bracket from some place on, reading forward.
* `lookahead` tabulates the same for all places of a text at once, from right to left, so that
  every opening bracket is resolved without reading on.
* `items` is what the class is written as in a regex.
-/

namespace Wildcard.Bracket

open Wildcard.Regex

/-! ## 1. The closing bracket -/

/-- How far it is to the next `:]`. -/
def nameEnd? : List Char → Option Nat
  | ':' :: ']' :: _ => some 0
  | _ :: rest => (nameEnd? rest).map (· + 1)
  | [] => none

/-- How far it is to the closing bracket, reading forward: a backslash takes the next character
    with it, and `[:` takes everything up to the next `:]` with it if there is one. -/
def scan (cs : List Char) : Option Nat :=
  match cs with
  | [] => none
  | '\\' :: rest => (scan (rest.drop 1)).map (· + 2)
  | ']' :: _ => some 0
  | '[' :: ':' :: rest =>
    match nameEnd? rest with
    | some d => (scan (rest.drop (d + 2))).map (· + (d + 4))
    | none => (scan (':' :: rest)).map (· + 1)
  | _ :: rest => (scan rest).map (· + 1)
termination_by cs.length
decreasing_by all_goals simp_wf <;> omega

/-- What lies ahead of one place of a text. -/
structure Ahead where
  /-- How far it is to the closing bracket of a class whose contents are read from here on. -/
  close : Option Nat
  /-- How far it is to the next `:]`. -/
  nameEnd : Option Nat
  deriving DecidableEq, Repr

/-- The closing bracket seen from place `k` of a table. -/
def closeAt (table : List Ahead) (k : Nat) : Option Nat := table[k]?.bind (·.close)

/-- What lies ahead of each place of a text, its end included. -/
def lookahead : List Char → List Ahead
  | [] => [⟨none, none⟩]
  | c :: rest =>
    let table := lookahead rest
    let step := (closeAt table 0).map (· + 1)
    let close :=
      if c = '\\' then (closeAt table 1).map (· + 2)
      else if c = ']' then some 0
      else if c = '[' ∧ rest.head? = some ':' then
        match table[1]?.bind (·.nameEnd) with
        | some d => (closeAt table (d + 3)).map (· + (d + 4))
        | none => step
      else step
    let nameEnd :=
      if c = ':' ∧ rest.head? = some ']' then some 0
      else (table[0]?.bind (·.nameEnd)).map (· + 1)
    ⟨close, nameEnd⟩ :: table

@[simp] theorem length_lookahead (cs : List Char) : (lookahead cs).length = cs.length + 1 := by
  induction cs with
  | nil => rfl
  | cons c rest ih => simp [lookahead, ih]

/-- Whether a character negates a class when it stands first in it. -/
def isNegation (c : Char) : Bool := c == '!' || c == '^'

/-- How many characters at the beginning of a class negate it: one or none. -/
def negationLength : List Char → Nat
  | c :: _ => if isNegation c then 1 else 0
  | [] => 0

/-- How far it is from just behind an opening bracket to the bracket that closes its class, by the
    table for that place. A `]` that stands first is a member. -/
def closing? (cs : List Char) (table : List Ahead) : Option Nat :=
  let start := negationLength cs
  match cs[start]? with
  | none => none
  | some ']' => (closeAt table (start + 1)).map (· + (start + 1))
  | some _ => (closeAt table start).map (· + start)

/-! ## 2. Named classes -/

/-- The spelling of a range. -/
def span (first last : Literal) : List Literal := [first, .bare '-', last]

/-- The named classes, each with the spelled characters it stands for. -/
def namedClasses : List (List Char × List Literal) :=
  let lower := span (.bare 'a') (.bare 'z')
  let upper := span (.bare 'A') (.bare 'Z')
  let digit := span (.bare '0') (.bare '9')
  let space : List Literal := [.bare ' ', .escaped 't']
  [ (['a', 'l', 'n', 'u', 'm'], lower ++ upper ++ digit),
    (['a', 'l', 'p', 'h', 'a'], lower ++ upper),
    (['a', 's', 'c', 'i', 'i'], span (.hex '0' '0') (.hex '7' 'F')),
    (['b', 'l', 'a', 'n', 'k'], space),
    (['c', 'n', 't', 'r', 'l'], span (.hex '0' '0') (.hex '1' 'F') ++ [.hex '7' 'F']),
    (['d', 'i', 'g', 'i', 't'], digit),
    (['g', 'r', 'a', 'p', 'h'], span (.hex '2' '1') (.hex '7' 'E')),
    (['l', 'o', 'w', 'e', 'r'], lower),
    (['p', 'r', 'i', 'n', 't'], span (.hex '2' '0') (.hex '7' 'E')),
    (['p', 'u', 'n', 'c', 't'],
      span (.bare '!') (.escaped '/') ++ span (.bare ':') (.bare '@') ++
        span (.escaped '[') (.bare '\x60') ++ span (.escaped '\x7b') (.bare '~')),
    (['s', 'p', 'a', 'c', 'e'],
      space ++ [.escaped 'r', .escaped 'n', .escaped 'v', .escaped 'f']),
    (['u', 'p', 'p', 'e', 'r'], upper),
    (['w', 'o', 'r', 'd'], upper ++ lower ++ digit ++ [.bare '_']),
    (['x', 'd', 'i', 'g', 'i', 't'],
      span (.bare 'A') (.bare 'F') ++ span (.bare 'a') (.bare 'f') ++ digit) ]

/-- The named class whose name, with `:]` behind it, stands at the beginning of a text: its
    spelled characters, and how long the name is. -/
def named? (cs : List Char) : Option (List Literal × Nat) :=
  (namedClasses.find? fun (name, _) => (name ++ [':', ']']).isPrefixOf cs).map
    fun (name, literals) => (literals, name.length)

/-! ## 3. The class in a regex -/

/-- Where the reading of a class stands. -/
inductive Position where
  /-- Before its first member. -/
  | first
  /-- Just behind a named class. -/
  | afterName
  | within
  deriving DecidableEq, Repr

/-- The spelled characters that the members of a class are written as; the number counts the
    characters still to be passed over. A hyphen makes a range unless it stands first, or last, or
    directly behind a named class; everything else stands for itself. -/
def itemsFrom : Nat → Position → List Char → List Literal
  | _, _, [] => []
  | n + 1, p, _ :: rest => itemsFrom n p rest
  | 0, _, '\\' :: c :: rest => .member c :: itemsFrom 0 .within rest
  | 0, p, c :: rest =>
    match if c = '[' ∧ rest.head? = some ':' then named? (rest.drop 1) else none with
    | some (literals, n) => literals ++ itemsFrom (n + 3) .afterName rest
    | none =>
      (if c = '-' ∧ p = .within ∧ rest ≠ [] then .bare '-' else .member c) ::
        itemsFrom 0 .within rest

/-- What a class with the given text between its brackets is written as in a regex. A negated
    class never matches a separator. -/
def item (body : List Char) : Single :=
  if negationLength body = 0 then .set false (itemsFrom 0 .first body)
  else .set true (itemsFrom 0 .first (body.drop 1) ++ [.bare '/'])

end Wildcard.Bracket
