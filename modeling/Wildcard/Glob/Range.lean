import Wildcard.Text.Digit

/-!
# Ranges in braces

The contents of a brace group may be a range: two integers, or two letters of ASCII, with two dots
between them, and perhaps two more dots and a step. A range stands for the values from the first
endpoint to the second one in steps of that length, up or down as the endpoints say; its sign
does not matter, and a missing step or a step of zero is a step of one.

* An integer has up to `maxDigits` decimal digits of any script, and perhaps a minus sign.
* A range of more than `maxValues` integers is no range.
* If an endpoint is written with a leading zero, the values are filled up with zeros to the
  length of the longer endpoint text; the sign stays in front.
* A single line feed may stand behind the range.
-/

namespace Wildcard.Range

open Wildcard.Text

/-! ## 1. Integers -/

/-- How many digits an integer may have. -/
def maxDigits : Nat := 18

/-- How many values a range of integers may have. -/
def maxValues : Nat := 1000

/-- An integer as written: a sign or none, and the digits. -/
structure Numeral where
  negative : Bool
  digits : List Char
  deriving DecidableEq, Repr

namespace Numeral

/-- How the integer is written. -/
def text (n : Numeral) : List Char := if n.negative then '-' :: n.digits else n.digits

/-- The value of the integer. -/
def value (n : Numeral) : Int :=
  if n.negative then -(numberOf n.digits : Int) else (numberOf n.digits : Int)

/-- Whether the integer has a leading zero; only the zero of ASCII counts as one. -/
def isPadded (n : Numeral) : Bool := n.digits.length > 1 && n.digits.head? == some '0'

/-- Reads an integer at the beginning of a text, and gives what follows it. -/
def read? (cs : List Char) : Option (Numeral × List Char) :=
  let (negative, cs) :=
    match cs with
    | '-' :: rest => (true, rest)
    | _ => (false, cs)
  let digits := cs.takeWhile isDigit
  if digits = [] ∨ digits.length > maxDigits then none
  else some (⟨negative, digits⟩, cs.dropWhile isDigit)

end Numeral

/-! ## 2. Ranges as written -/

/-- A range as written; the step is what stands behind the second pair of dots. -/
inductive Spelled where
  | numbers (first last : Numeral) (step : Option Numeral)
  | letters (first last : Char) (step : Option Numeral)
  deriving DecidableEq, Repr

/-- Reads the two dots between the parts of a range. -/
def dots? : List Char → Option (List Char)
  | '.' :: '.' :: rest => some rest
  | _ => none

/-- Reads what may follow the endpoints: nothing, or a step, and perhaps a line feed. -/
def step? (cs : List Char) : Option (Option Numeral) :=
  if cs = [] ∨ cs = ['\n'] then some none
  else
    match dots? cs with
    | none => none
    | some rest =>
      match Numeral.read? rest with
      | some (n, rest) => if rest = [] ∨ rest = ['\n'] then some (some n) else none
      | none => none

/-- Whether a character is a letter of ASCII. -/
def isLetter (c : Char) : Bool := c.isAlpha

/-- Reads a range of integers. -/
def numbers? (cs : List Char) : Option Spelled :=
  match Numeral.read? cs with
  | none => none
  | some (first, rest) =>
    match (dots? rest).bind Numeral.read? with
    | none => none
    | some (last, rest) => (step? rest).map (.numbers first last)

/-- Reads a range of letters. -/
def letters? : List Char → Option Spelled
  | first :: '.' :: '.' :: last :: rest =>
    if isLetter first && isLetter last then (step? rest).map (.letters first last) else none
  | _ => none

/-- Reads a range. -/
def Spelled.read? (cs : List Char) : Option Spelled := (numbers? cs).orElse fun _ => letters? cs

/-! ## 3. The values -/

/-- The length of the steps of a range. -/
def stepLength (step : Option Numeral) : Nat :=
  match step with
  | some n => max 1 n.value.natAbs
  | none => 1

/-- How many values there are from one integer to another. -/
def count (first last : Int) (step : Nat) : Nat := (first - last).natAbs / step + 1

/-- The values from one integer to another. -/
def values (first last : Int) (step : Nat) : List Int :=
  (List.range (count first last step)).map fun (i : Nat) =>
    if first ≤ last then first + (i * step : Nat) else first - (i * step : Nat)

/-- The digits of a natural number. -/
def decimal (n : Nat) : List Char := Nat.toDigits 10 n

/-- An integer with zeros behind its sign so that it has at least `width` characters. -/
def filled (width : Nat) (v : Int) : List Char :=
  let digits := decimal v.natAbs
  if v < 0 then '-' :: (List.replicate (width - (digits.length + 1)) '0' ++ digits)
  else List.replicate (width - digits.length) '0' ++ digits

/-- The texts that a range stands for, unless it is a range of too many integers. -/
def Spelled.expand? : Spelled → Option (List (List Char))
  | numbers first last step =>
    let length := stepLength step
    if count first.value last.value length > maxValues then none
    else
      let width :=
        if first.isPadded || last.isPadded then max first.text.length last.text.length else 0
      some ((values first.value last.value length).map (filled width))
  | letters first last step =>
    some ((values first.toNat last.toNat (stepLength step)).map fun v => [Char.ofNat v.toNat])

/-- The texts that the contents of a brace group stand for if they are a range. -/
def expand? (cs : List Char) : Option (List (List Char)) := (Spelled.read? cs).bind Spelled.expand?

end Wildcard.Range
