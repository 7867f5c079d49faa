import Wildcard.Document.Node
import Wildcard.Document.Plain
import Wildcard.PatternSet

/-!
# Documents

A document is read from bytes: they must be text in UTF-8, the text must have the form of a
document, and every node must have a value. A mapping may name a key more than once, the last value
counts; lists and mappings cannot be keys.

What is read here is the part of the format that pattern files are written in: lists and mappings,
by indentation or between brackets, and scalars, plain or in quotes. A document that is written
with another part of the format is told from one that is malformed.
-/

namespace Wildcard

namespace Document

/-! ## 1. Values of nodes -/

/-- Why a document cannot be read. -/
inductive Error where
  | notText
  | form (e : TokenError)
  /-- A key that is a list or a mapping, or a scalar that is no value. -/
  | noValue
  | number (e : Plain.NumberError)
  | date (e : DateError)
  deriving DecidableEq, Repr

/-- The value of a scalar. -/
def scalarValue (text : List Char) (plain : Bool) : Except Error Value :=
  if plain then
    match Plain.value text with
    | .ok v => .ok v
    | .error .reserved => .error .noValue
    | .error (.number e) => .error (.number e)
    | .error (.date e) => .error (.date e)
  else .ok (.text text)

mutual

/-- The value of a node. -/
def Node.value : Node → Except Error Value
  | .scalar text plain => scalarValue text plain
  | .list items =>
    match itemValues items with
    | .ok vs => .ok (.list vs)
    | .error e => .error e
  | .mapping entries =>
    match entryValues [] entries with
    | .ok es => .ok (.mapping es)
    | .error e => .error e

/-- The values of the items of a list. -/
def itemValues : List Node → Except Error (List Value)
  | [] => .ok []
  | n :: rest =>
    match n.value with
    | .error e => .error e
    | .ok v =>
      match itemValues rest with
      | .ok vs => .ok (v :: vs)
      | .error e => .error e

/-- The entries of a mapping, put into those found before. -/
def entryValues (found : List (Value × Value)) :
    List (Node × Node) → Except Error (List (Value × Value))
  | [] => .ok found
  | (k, v) :: rest =>
    match k.value with
    | .error e => .error e
    | .ok key =>
      if key.isKey then
        match v.value with
        | .ok value => entryValues (Value.insert key value found) rest
        | .error e => .error e
      else .error .noValue

end

/-! ## 2. Texts and bytes -/

/-- The value of a document's text. -/
def ofText (text : List Char) : Except Error Value :=
  match Node.ofText (unifyLineEnds text) with
  | .ok n => n.value
  | .error e => .error (.form e)

/-- The value of a document's bytes. -/
def ofBytes (bytes : ByteArray) : Except Error Value :=
  match String.fromUTF8? bytes with
  | some s => ofText s.toList
  | none => .error .notText

end Document

/-! ## 3. Pattern sets from documents -/

/-- Reads a pattern set from a document. -/
def PatternSet.ofSource : Source → Except (LoadError Document.Error) PatternSet :=
  load Document.ofBytes

end Wildcard
