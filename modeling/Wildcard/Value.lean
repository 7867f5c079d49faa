import Wildcard.Date
import Wildcard.Decimal
import Wildcard.Text.Case

/-!
# Values of unknown kind

What stands in a document, or what a caller hands over where a text or a list is expected. Values
are compared by content: numbers by their value, whatever their kind, with the truth values as one
and zero; dates by where they stand in time; lists in order; mappings in any order.
-/

namespace Wildcard

/-- A value of unknown kind. -/
inductive Value where
  | null
  | bool (b : Bool)
  | int (n : Int)
  | decimal (d : Decimal)
  | date (d : Date)
  | text (cs : List Char)
  | list (items : List Value)
  | mapping (entries : List (Value × Value))
  deriving Repr

instance : Inhabited Value := ⟨.null⟩

namespace Value

/-! ## 1. Kinds and comparison -/

/-- The word for the kind of a value. -/
def kindName : Value → String
  | null => "NoneType"
  | bool _ => "bool"
  | int _ => "int"
  | decimal _ => "float"
  | date (.day _) => "date"
  | date _ => "datetime"
  | text _ => "str"
  | list _ => "list"
  | mapping _ => "dict"

/-- The word for the kind of a value in a message about an operation that it does not have; those
    name the family of the dates as well. -/
def qualifiedKindName : Value → String
  | date d => "datetime." ++ (date d).kindName
  | v => v.kindName

/-- The number of digits up to which an integer is written in decimal, or read from there. -/
def maxDecimalDigits : Nat := 4300

/-- Whether a value can be a key of a mapping. -/
def isKey : Value → Bool
  | list _ | mapping _ => false
  | _ => true

/-- The number that a value counts as. -/
def number? : Value → Option Decimal
  | bool b => some (.ofInt (if b then 1 else 0))
  | int n => some (.ofInt n)
  | decimal d => some d
  | _ => none

mutual

/-- Whether two values are the same by content. -/
def same : Value → Value → Bool
  | null, null => true
  | text a, text b => a == b
  | date a, date b => a.same b
  | list xs, list ys => sameItems xs ys
  | mapping xs, mapping ys => xs.length == ys.length && sameEntries xs ys
  | a, b =>
    match a.number?, b.number? with
    | some x, some y => x.same y
    | _, _ => false

/-- Whether two lists are the same item by item. -/
def sameItems : List Value → List Value → Bool
  | [], [] => true
  | x :: xs, y :: ys => same x y && sameItems xs ys
  | _, _ => false

/-- Whether each entry of a mapping is also one of another. -/
def sameEntries : List (Value × Value) → List (Value × Value) → Bool
  | [], _ => true
  | (k, v) :: xs, ys => ys.any (fun (l, w) => same k l && same v w) && sameEntries xs ys

end

/-- Values are compared by content. -/
instance : BEq Value := ⟨same⟩

/-- The value of a key in the entries of a mapping. -/
def lookup (key : List Char) : List (Value × Value) → Option Value
  | [] => none
  | (k, v) :: rest => if k == text key then some v else lookup key rest

/-- The entries with one more, in the place of an entry with the same key if there is one. -/
def insert (key value : Value) : List (Value × Value) → List (Value × Value)
  | [] => [(key, value)]
  | (k, v) :: rest => if k == key then (k, value) :: rest else (k, v) :: insert key value rest

/-! ## 2. Functions on values -/

/-- Why a function has no result for a value; it depends on the kind of the value alone. -/
inductive OperationError where
  | noLength (kind : String)
  | noDouble (kind : String)
  | noUpperCase (kind : String)
  /-- Something that is no text was to be searched. -/
  | notSearchable (kind : String)
  /-- Something that is no pattern was to be written as a regex. -/
  | notAPattern (kind : String)
  deriving DecidableEq, Repr

/-- The message of an error. -/
def OperationError.message : OperationError → String
  | noLength kind => "object of type '" ++ kind ++ "' has no len()"
  | noDouble kind => "unsupported operand type(s) for *: '" ++ kind ++ "' and 'int'"
  | noUpperCase kind =>
    "descriptor 'upper' for 'str' objects doesn't apply to a '" ++ kind ++ "' object"
  | notSearchable kind => "expected string or bytes-like object, got '" ++ kind ++ "'"
  | notAPattern kind => "'" ++ kind ++ "' object has no attribute 'prefix'"

/-- The upper case of a text. -/
def upperCase : Value → Except OperationError Value
  | text cs => .ok (text (Text.upperText cs))
  | v => .error (.noUpperCase v.qualifiedKindName)

/-- A number doubled, or a text or list twice in a row. -/
def doubled : Value → Except OperationError Value
  | bool b => .ok (int (if b then 2 else 0))
  | int n => .ok (int (2 * n))
  | decimal d => .ok (decimal d.doubled)
  | text cs => .ok (text (cs ++ cs))
  | list xs => .ok (list (xs ++ xs))
  | v => .error (.noDouble v.qualifiedKindName)

/-- How many characters, items or entries a value has. -/
def size : Value → Except OperationError Value
  | text cs => .ok (int cs.length)
  | list xs => .ok (int xs.length)
  | mapping es => .ok (int es.length)
  | v => .error (.noLength v.qualifiedKindName)

/-- The characters of a value that is gone through character by character. -/
def characters : Value → Except OperationError (List Char)
  | text cs => .ok cs
  | v => .error (.noLength v.qualifiedKindName)

/-- The characters of a value that is searched. -/
def searchable : Value → Except OperationError (List Char)
  | text cs => .ok cs
  | v => .error (.notSearchable v.qualifiedKindName)

/-- The characters of a value that is written as a regex. -/
def writable : Value → Except OperationError (List Char)
  | text cs => .ok cs
  | v => .error (.notAPattern v.qualifiedKindName)

/-- The list of just the value. -/
def singleton (v : Value) : Except OperationError Value := .ok (list [v])

end Value

end Wildcard
