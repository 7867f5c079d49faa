import Wildcard.Value

/-!
# What a plain scalar stands for

A plain scalar is a text unless it is written like something else: nothing, a truth value, an
integer, a number with a fraction, or a date. Integers may be written to base two, eight, ten or
sixteen, or to base sixty with colons between the places; underscores may stand between digits.

Two scalars that have a meaning of their own elsewhere cannot be values. An integer must have
digits, and in decimal not too many of them, and a date must exist.
-/

namespace Wildcard.Document.Plain

/-! ## 1. Digits -/

/-- The value of a digit in the bases up to sixteen. -/
def digit? (c : Char) : Option Nat :=
  if '0' ≤ c ∧ c ≤ '9' then some (c.toNat - '0'.toNat)
  else if 'a' ≤ c ∧ c ≤ 'f' then some (c.toNat - 'a'.toNat + 10)
  else if 'A' ≤ c ∧ c ≤ 'F' then some (c.toNat - 'A'.toNat + 10)
  else none

/-- Whether a character is a digit to a base, or an underscore. -/
def isPlace (base : Nat) (c : Char) : Bool := c == '_' || (digit? c).any fun d => decide (d < base)

/-- Whether a character is a decimal digit. -/
def isDecimal (c : Char) : Bool := decide ('0' ≤ c ∧ c ≤ '9')

/-- The number that digits stand for; underscores do not count. -/
def numberOf (base : Nat) (cs : List Char) : Nat :=
  (cs.filter (· != '_')).foldl (fun n c => base * n + (digit? c).getD 0) 0

/-- The parts between the occurrences of a character. -/
def splitOn (separator : Char) : List Char → List (List Char)
  | [] => [[]]
  | c :: rest =>
    match splitOn separator rest with
    | part :: parts => if c = separator then [] :: part :: parts else (c :: part) :: parts
    | [] => [[c]]

/-- Whether a text is a place to base sixty: one digit, or two of which the first is below six. -/
def isSixtieth : List Char → Bool
  | [c] => isDecimal c
  | [d, c] => decide ('0' ≤ d ∧ d ≤ '5') && isDecimal c
  | _ => false

/-- A sign, as a factor, and what follows it. -/
def sign : List Char → Int × List Char
  | '-' :: rest => (-1, rest)
  | '+' :: rest => (1, rest)
  | cs => (1, cs)

/-! ## 2. Numbers -/

/-- A text of decimal digits and underscores that begins with a digit. -/
def isDecimals : List Char → Bool
  | c :: rest => isDecimal c && rest.all (isPlace 10)
  | [] => false

/-- Why an integer cannot be read. -/
inductive NumberError where
  | noDigits (base : Nat)
  | tooManyDigits (count : Nat)
  deriving DecidableEq, Repr

/-- The message of an error. -/
def NumberError.message : NumberError → String
  | noDigits base => "invalid literal for int() with base " ++ toString base ++ ": ''"
  | tooManyDigits count =>
    "Exceeds the limit (" ++ toString Value.maxDecimalDigits ++ " digits) for integer string " ++
      "conversion: value has " ++ toString count ++
      " digits; use sys.set_int_max_str_digits() to increase the limit"

/-- The number that digits to a base that is a power of two stand for. -/
def numberIn (base : Nat) (cs : List Char) : Except NumberError Nat :=
  if cs.all (· == '_') then .error (.noDigits base) else .ok (numberOf base cs)

/-- The number that decimal digits stand for. -/
def decimalNumber (cs : List Char) : Except NumberError Nat :=
  let count := (cs.filter (· != '_')).length
  if Value.maxDecimalDigits < count then .error (.tooManyDigits count) else .ok (numberOf 10 cs)

/-- An integer without its sign. -/
def natural? (cs : List Char) : Option (Except NumberError Nat) :=
  match cs with
  | ['0'] => some (.ok 0)
  | '0' :: 'b' :: rest => if rest ≠ [] ∧ rest.all (isPlace 2) then some (numberIn 2 rest) else none
  | '0' :: 'x' :: rest =>
    if rest ≠ [] ∧ rest.all (isPlace 16) then some (numberIn 16 rest) else none
  | '0' :: rest => if rest.all (isPlace 8) then some (.ok (numberOf 8 rest)) else none
  | _ =>
    match splitOn ':' cs with
    | [digits] => if isDecimals digits then some (decimalNumber digits) else none
    | first :: rest =>
      if isDecimals first && rest.all isSixtieth then
        some ((decimalNumber first).map fun n =>
          rest.foldl (fun n part => 60 * n + numberOf 10 part) n)
      else none
    | [] => none

/-- An integer. -/
def int? (cs : List Char) : Option (Except NumberError Int) :=
  let (factor, rest) := sign cs
  (natural? rest).map fun r => r.map fun n => factor * n

/-- The exponent behind the digits of a number with a fraction: a letter, a sign, and digits. -/
def exponent? : List Char → Option Int
  | [] => some 0
  | e :: rest =>
    if e = 'e' ∨ e = 'E' then
      match rest with
      | s :: digits =>
        if (s = '+' ∨ s = '-') ∧ digits ≠ [] ∧ digits.all isDecimal then
          some ((sign [s, ' ']).1 * numberOf 10 digits)
        else none
      | [] => none
    else none

/-- A number with a fraction, without its sign: the whole part and what stands behind the
    point. -/
def fraction? (factor : Int) (whole : Nat) (behind : List Char) : Option Decimal :=
  let places := behind.takeWhile (isPlace 10)
  let digits := places.filter (· != '_')
  (exponent? (behind.dropWhile (isPlace 10))).map fun e =>
    let mantissa : Int := factor * (whole * Nat.pow 10 digits.length + numberOf 10 digits : Nat)
    .finite mantissa (e - digits.length) (mantissa == 0 && factor == -1)

/-- The words for infinity and for what is not a number. -/
def special? (signed : Bool) (factor : Int) (cs : List Char) : Option Decimal :=
  if cs ∈ [".inf".toList, ".Inf".toList, ".INF".toList] then some (.infinite (factor == -1))
  else if !signed && cs ∈ [".nan".toList, ".NaN".toList, ".NAN".toList] then some .undefined
  else none

/-- A number with a fraction. -/
def decimal? (cs : List Char) : Option Decimal :=
  let (factor, rest) := sign cs
  let signed := rest.length < cs.length
  match special? signed factor rest with
  | some d => some d
  | none =>
    let whole := rest.takeWhile (· != '.')
    match rest.dropWhile (· != '.') with
    | [] => none
    | _ :: behind =>
      if whole = [] then
        if signed || !(behind.head?.any isDecimal) then none else fraction? factor 0 behind
      else if isDecimals whole then fraction? factor (numberOf 10 whole) behind
      else
        match splitOn ':' whole with
        | first :: rest =>
          if isDecimals first && rest.all isSixtieth && behind.all (isPlace 10) then
            fraction? factor
              (rest.foldl (fun n part => 60 * n + numberOf 10 part) (numberOf 10 first)) behind
          else none
        | [] => none

/-! ## 3. Dates -/

/-- A part of a date: the digits at the beginning of a text, at least `least` and at most `most` of
    them, and what follows. -/
def digits? (least most : Nat) (cs : List Char) : Option (Nat × List Char) :=
  let ds := (cs.take most).takeWhile isDecimal
  if ds.length < least then none else some (numberOf 10 ds, cs.drop ds.length)

/-- A certain character, and what follows. -/
def past? (x : Char) : List Char → Option (List Char)
  | c :: rest => if c = x then some rest else none
  | [] => none

/-- A time of day as written. -/
structure Clock where
  hour : Nat
  minute : Nat
  second : Nat
  microsecond : Fin 1000000 := 0
  /-- How many minutes ahead the time zone is, if there is one. -/
  zone : Option Int := none

/-- A time zone, with blanks in front: nothing, a letter, or hours and perhaps minutes. -/
def zone? (cs : List Char) : Option (Option Int) :=
  match cs.dropWhile fun c => c == ' ' || c == '\t' with
  | [] => if cs = [] then some none else none
  | ['Z'] => some (some 0)
  | s :: rest =>
    if s = '+' ∨ s = '-' then
      let factor : Int := if s = '-' then -1 else 1
      match digits? 1 2 rest with
      | some (hours, []) => some (some (factor * (hours * 60 : Nat)))
      | some (hours, rest) =>
        match (past? ':' rest).bind (digits? 2 2) with
        | some (minutes, []) => some (some (factor * (hours * 60 + minutes : Nat)))
        | _ => none
      | none => none
    else none

/-- The microseconds of a fraction of a second; further digits do not count. -/
def microseconds (digits : List Char) : Fin 1000000 :=
  let kept := digits.take 6
  Fin.ofNat 1000000 (numberOf 10 kept * Nat.pow 10 (6 - kept.length))

/-- A time of day, perhaps with a fraction of a second and a time zone. -/
def clock? (cs : List Char) : Option Clock := do
  let (hour, rest) ← digits? 1 2 cs
  let rest ← past? ':' rest
  let (minute, rest) ← digits? 2 2 rest
  let rest ← past? ':' rest
  let (second, rest) ← digits? 2 2 rest
  match past? '.' rest with
  | some fraction =>
    let zone ← zone? (fraction.dropWhile isDecimal)
    let microsecond := microseconds (fraction.takeWhile isDecimal)
    return { hour, minute, second, microsecond, zone }
  | none =>
    let zone ← zone? rest
    return { hour, minute, second, zone }

/-- The moment of a day and a time of day. -/
def Clock.moment (c : Clock) (year month day : Nat) : Except DateError Date := do
  let zone ← c.zone.mapM Zone.ofMinutes
  let d ← Day.ofNumbers year month day
  let t ← TimeOfDay.ofNumbers c.hour c.minute c.second c.microsecond
  match zone with
  | none => return .moment d t
  | some z => return .zonedMoment d t z

/-- A date, with or without a time of day. Alone it has two digits for month and day. -/
def date? (cs : List Char) : Option (Except DateError Date) := do
  let (year, rest) ← digits? 4 4 cs
  let rest ← past? '-' rest
  let (month, rest) ← digits? 1 2 rest
  let rest ← past? '-' rest
  let (day, rest) ← digits? 1 2 rest
  match rest with
  | [] => if cs.length = 10 then return (Day.ofNumbers year month day).map .day else none
  | c :: behind =>
    let blank := fun x => x == ' ' || x == '\t'
    if c = 'T' ∨ c = 't' then
      let clock ← clock? behind
      return clock.moment year month day
    else if blank c = true then
      let clock ← clock? (behind.dropWhile blank)
      return clock.moment year month day
    else none

/-! ## 4. All together -/

/-- Why a plain scalar is no value. -/
inductive Error where
  /-- It has a meaning of its own, but not as a value. -/
  | reserved
  | number (e : NumberError)
  | date (e : DateError)
  deriving DecidableEq, Repr

/-- The ways to write nothing. -/
def nulls : List (List Char) := [[], ['~'], "null".toList, "Null".toList, "NULL".toList]

/-- The ways to write true. -/
def trues : List (List Char) :=
  ["yes", "Yes", "YES", "true", "True", "TRUE", "on", "On", "ON"].map String.toList

/-- The ways to write false. -/
def falses : List (List Char) :=
  ["no", "No", "NO", "false", "False", "FALSE", "off", "Off", "OFF"].map String.toList

/-- The value of a plain scalar. -/
def value (cs : List Char) : Except Error Value :=
  if nulls.contains cs then .ok .null
  else if trues.contains cs then .ok (.bool true)
  else if falses.contains cs then .ok (.bool false)
  else if cs = ['='] ∨ cs = ['<', '<'] then .error .reserved
  else
    match decimal? cs, int? cs, date? cs with
    | some d, _, _ => .ok (.decimal d)
    | none, some (.ok n), _ => .ok (.int n)
    | none, some (.error e), _ => .error (.number e)
    | none, none, some (.ok d) => .ok (.date d)
    | none, none, some (.error e) => .error (.date e)
    | none, none, none => .ok (.text cs)

end Wildcard.Document.Plain
