import Wildcard.Matcher.Input

/-!
# Pattern sets

A pattern set is a list of patterns with options. It is read from a value: nothing at all, a list
of texts, or a mapping with a list of texts under `patterns` and a mapping under `options`. What
does not have this form is refused, with the cause and the name of the source the value came from.

The message about unknown options names them in order. So it takes that their names can be put in
order and be written out, and where they cannot, that is what fails.

A pattern set is loaded from a document by way of a reader that gives the value of the document.
-/

namespace Wildcard

/-! ## 1. Errors -/

/-- Why two keys cannot be put in order. -/
inductive OrderError where
  /-- There is no order between the two kinds. -/
  | kinds (left right : String)
  | dates (e : Date.Mismatch)
  deriving DecidableEq, Repr

/-- The message of an error. -/
def OrderError.message : OrderError → String
  | kinds left right =>
    "'<' not supported between instances of '" ++ left ++ "' and '" ++ right ++ "'"
  | dates e => e.message

/-- Why a value is no pattern set. -/
inductive ConfigError where
  | notAPatternSet
  | patternsNotTexts
  | optionsNotAMapping
  /-- Options of unknown names; the names in order. -/
  | unknownOptions (names : List (List Char))
  /-- Names of unknown options that cannot be put in order; two of them are compared in vain. -/
  | unorderedOptions (e : OrderError)
  /-- The name of an unknown option is an integer of too many digits. -/
  | unwritableOption
  | optionNotABoolean (name : List Char)
  | flagsNotText
  deriving DecidableEq, Repr

/-- Texts with a comma and a space between them. -/
def commaSeparated : List (List Char) → List Char
  | [] => []
  | [t] => t
  | t :: rest => t ++ ',' :: ' ' :: commaSeparated rest

/-- The message of an error, without the source. -/
def ConfigError.detail : ConfigError → String
  | notAPatternSet => "expected a mapping or a list of patterns"
  | patternsNotTexts => "'patterns' must be a list of strings"
  | optionsNotAMapping => "options must be a mapping"
  | unknownOptions names => "unknown options: " ++ String.ofList (commaSeparated names)
  | unorderedOptions e => e.message
  | unwritableOption =>
    "Exceeds the limit (" ++ toString Value.maxDecimalDigits ++ " digits) for integer string " ++
      "conversion; use sys.set_int_max_str_digits() to increase the limit"
  | optionNotABoolean name => "option '" ++ String.ofList name ++ "' must be true or false"
  | flagsNotText => "option 'flags' must be a string of regex flag letters"

/-! ## 2. Options -/

namespace Value

/-- A key as it is named in a message; an integer must not have too many digits, besides its
    sign. -/
def keyText? : Value → Option (List Char)
  | null => some "None".toList
  | bool true => some "True".toList
  | bool false => some "False".toList
  | int n =>
    let digits := Nat.toDigits 10 n.natAbs
    if digits.length ≤ maxDecimalDigits then some (if n < 0 then '-' :: digits else digits)
    else none
  | decimal d => some d.text
  | date d => some d.text
  | text t => some t
  | list _ => some "[]".toList
  | mapping _ => some "{}".toList

/-- Whether a key comes before another one, where keys of the two kinds can be put in order:
    texts by code point, dates in time, numbers by value. -/
def isBelow : Value → Value → Except OrderError Bool
  | text a, text b => .ok (decide (a < b))
  | date a, date b => (a.isBelow b).mapError .dates
  | a, b =>
    match a.number?, b.number? with
    | some x, some y => .ok (x.below y)
    | _, _ => .error (.kinds a.qualifiedKindName b.qualifiedKindName)

/-- A key put in its place among keys in order. -/
def place (key : Value) : List Value → Except OrderError (List Value)
  | [] => .ok [key]
  | k :: rest =>
    match isBelow k key with
    | .error e => .error e
    | .ok false => .ok (key :: k :: rest)
    | .ok true =>
      match place key rest with
      | .ok placed => .ok (k :: placed)
      | .error e => .error e

/-- Keys in order. Which two of them an error names depends on the order in which they come. -/
def sorted : List Value → Except OrderError (List Value)
  | [] => .ok []
  | k :: rest =>
    match sorted rest with
    | .ok placed => place k placed
    | .error e => .error e

end Value

/-- The names of the options that are true or false. -/
def booleanOptions : List (List Char) := ["nocase".toList, "nonegate".toList, "dot".toList]

/-- The name of the option that holds flags. -/
def flagsOption : List Char := "flags".toList

/-- Whether a key is the name of an option. -/
def isOptionName : Value → Bool
  | .text t => t == flagsOption || booleanOptions.contains t
  | _ => false

/-- The value of an option that is true or false; it is false if it is not given. -/
def booleanOption (entries : List (Value × Value)) (name : List Char) : Except ConfigError Bool :=
  match Value.lookup name entries with
  | none => .ok false
  | some (.bool b) => .ok b
  | some _ => .error (.optionNotABoolean name)

/-- The keys of a mapping that are no names of options. -/
def unknownKeys (entries : List (Value × Value)) : List Value :=
  (entries.map (·.1)).filter fun k => !isOptionName k

/-- The options that are given. -/
def givenOptions (entries : List (Value × Value)) : Except ConfigError MatchOptions :=
  match booleanOption entries "nocase".toList, booleanOption entries "nonegate".toList,
      booleanOption entries "dot".toList with
  | .error e, _, _ => .error e
  | _, .error e, _ => .error e
  | _, _, .error e => .error e
  | .ok nocase, .ok nonegate, .ok dot =>
    match Value.lookup flagsOption entries with
    | none | some .null => .ok { nocase, nonegate, dot }
    | some (.text t) => .ok { nocase, nonegate, dot, flags := some t }
    | some _ => .error .flagsNotText

/-- The options that a value stands for. -/
def optionsOf : Value → Except ConfigError (Option MatchOptions)
  | .null => .ok none
  | .mapping entries =>
    match Value.sorted (unknownKeys entries) with
    | .error e => .error (.unorderedOptions e)
    | .ok [] => (givenOptions entries).map some
    | .ok unknown =>
      match unknown.mapM Value.keyText? with
      | some names => .error (.unknownOptions names)
      | none => .error .unwritableOption
  | _ => .error .optionsNotAMapping

/-! ## 3. Pattern sets -/

/-- A list of patterns with options. -/
structure PatternSet where
  patterns : List (List Char) := []
  options : Option MatchOptions := none
  deriving DecidableEq, Repr

namespace PatternSet

/-- An error in a pattern set, with the part it is in: the options or the set itself. -/
structure Located where
  inOptions : Bool
  cause : ConfigError
  deriving DecidableEq, Repr

/-- The patterns under a value. -/
def patternsOf : Option Value → Except ConfigError (List (List Char))
  | none | some .null => .ok []
  | some (.list items) =>
    match Value.asPatterns items with
    | .ok ps => .ok ps
    | .error _ => .error .patternsNotTexts
  | some _ => .error .patternsNotTexts

/-- The pattern set of its two parts. -/
def ofParts (patterns options : Option Value) : Except Located PatternSet :=
  match patternsOf patterns with
  | .error e => .error ⟨false, e⟩
  | .ok patterns =>
    match optionsOf (options.getD .null) with
    | .error e => .error ⟨true, e⟩
    | .ok options => .ok { patterns, options }

/-- The pattern set that a value stands for. -/
def ofValue : Value → Except Located PatternSet
  | .null => .ok {}
  | .list items => ofParts (some (.list items)) none
  | .mapping entries =>
    ofParts (Value.lookup "patterns".toList entries) (Value.lookup "options".toList entries)
  | _ => .error ⟨false, .notAPatternSet⟩

/-- The candidates that a pattern set selects. -/
def apply (s : PatternSet) (m : Matcher) (candidates : Value) :
    Matcher × Except MatchError (List (List Char)) :=
  m.matchAllOf candidates (.list (s.patterns.map .text)) s.options

end PatternSet

/-- Names the source of a value in front of what is wrong with it. That names cannot be put in order
    or be written out is said without it. -/
def ConfigError.message (source : String) : ConfigError → String
  | unorderedOptions e => (unorderedOptions e).detail
  | unwritableOption => unwritableOption.detail
  | e => source ++ ": " ++ e.detail

/-- The message of an error in a pattern set from a source. -/
def PatternSet.Located.message (source : String) (e : Located) : String :=
  e.cause.message (if e.inOptions then source ++ ":options" else source)

/-! ## 4. Loading -/

namespace PatternSet

/-- Where a pattern set is to be read from. -/
inductive Source where
  /-- There is nothing at the place. -/
  | absent
  /-- There is something at the place that is no file. -/
  | unreadable
  | bytes (b : ByteArray)

/-- Why no pattern set is read. -/
inductive LoadError (ε : Type) where
  | absent
  | unreadable
  /-- The document is refused by its reader. -/
  | document (e : ε)
  /-- The document is no pattern set. -/
  | config (e : Located)
  deriving DecidableEq, Repr

/-- Reads a pattern set, with a reader of documents. -/
def load {ε : Type} (read : ByteArray → Except ε Value) : Source → Except (LoadError ε) PatternSet
  | .absent => .error .absent
  | .unreadable => .error .unreadable
  | .bytes b =>
    match read b with
    | .error e => .error (.document e)
    | .ok v =>
      match ofValue v with
      | .error e => .error (.config e)
      | .ok s => .ok s

end PatternSet

end Wildcard
