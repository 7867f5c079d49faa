/-!
# Numbers with a fraction

A number with a fraction is held as a whole number times a power of ten, which is what its text
says exactly; two further values stand for infinity and for what is not a number.

In a text such a number always shows that it has a fraction: `1.0`, not `1`. Numbers from 0.0001
up to but not including 10 000 000 000 000 000 are written with a point, all others with an
exponent of at least two digits.
-/

namespace Wildcard

/-- A number with a fraction. -/
inductive Decimal where
  /-- `mantissa` times ten to the power `exponent`; `negativeZero` tells the two zeros apart. -/
  | finite (mantissa : Int) (exponent : Int) (negativeZero : Bool)
  | infinite (negative : Bool)
  | undefined
  deriving DecidableEq, Repr

namespace Decimal

/-- A whole number. -/
def ofInt (n : Int) : Decimal := finite n 0 false

/-- Whether two numbers are equal; what is not a number equals nothing. -/
def same : Decimal → Decimal → Bool
  | finite m e _, finite n f _ =>
    let low := min e f
    m * Int.pow 10 (e - low).toNat == n * Int.pow 10 (f - low).toNat
  | infinite a, infinite b => a == b
  | _, _ => false

/-- Whether a number is below another one. -/
def below : Decimal → Decimal → Bool
  | finite m e _, finite n f _ =>
    let low := min e f
    decide (m * Int.pow 10 (e - low).toNat < n * Int.pow 10 (f - low).toNat)
  | infinite true, infinite false | infinite true, finite .. | finite .., infinite false => true
  | _, _ => false

/-- Twice the number. -/
def doubled : Decimal → Decimal
  | finite m e z => finite (2 * m) e z
  | d => d

/-- Digits without the zeros at their end, and how many of those there were. -/
def trimmed (digits : List Char) : List Char × Nat :=
  let kept := (digits.reverse.dropWhile (· == '0')).reverse
  (kept, digits.length - kept.length)

/-- The exponent below which a point is still shown: numbers are written with a point if their
    first digit stands for at least 10 ^ `lowest` and less than 10 ^ `highest`. -/
def lowest : Int := -4

/-- See `lowest`. -/
def highest : Int := 16

/-- The text of a positive number with the given digits, the first of which stands for ten to the
    power `lead`. -/
def positional (digits : List Char) (lead : Int) : List Char :=
  if lead < 0 then ['0', '.'] ++ List.replicate (-lead - 1).toNat '0' ++ digits
  else
    let whole := lead.toNat + 1
    let front := digits.take whole
    let fraction := digits.drop whole
    front ++ List.replicate (whole - front.length) '0' ++ '.' ::
      (if fraction = [] then ['0'] else fraction)

/-- The same with an exponent. -/
def scientific (digits : List Char) (lead : Int) : List Char :=
  let power := Nat.toDigits 10 lead.natAbs
  let exponent :=
    'e' :: (if lead < 0 then '-' else '+') :: (List.replicate (2 - power.length) '0' ++ power)
  match digits with
  | [d] => d :: exponent
  | d :: rest => d :: '.' :: rest ++ exponent
  | [] => exponent

/-- The text of a number. -/
def text : Decimal → List Char
  | finite m e z =>
    if m = 0 then (if z then ['-'] else []) ++ ['0', '.', '0']
    else
      let (digits, dropped) := trimmed (Nat.toDigits 10 m.natAbs)
      let lead := e + dropped + digits.length - 1
      let body :=
        if lowest ≤ lead ∧ lead < highest then positional digits lead else scientific digits lead
      if m < 0 then '-' :: body else body
  | infinite negative => (if negative then ['-'] else []) ++ ['i', 'n', 'f']
  | undefined => ['n', 'a', 'n']

end Decimal

end Wildcard
