/-!
# Dates

A date is a day of the calendar, alone or with a time of day, and a time of day may be one of a
time zone. Dates are compared by where they stand in time, and only with dates of the same form: a
day alone is at no time of day, and without a zone the clocks of different places cannot be
compared.
-/

namespace Wildcard

/-! ## 1. The calendar -/

/-- Whether a year has a leap day. -/
def isLeap (year : Nat) : Bool := year % 4 == 0 && (year % 100 != 0 || year % 400 == 0)

/-- How many days a month has. -/
def daysIn (year month : Nat) : Nat :=
  if month = 2 then if isLeap year then 29 else 28
  else if month = 4 ∨ month = 6 ∨ month = 9 ∨ month = 11 then 30 else 31

/-- A day of the calendar. -/
structure Day where
  year : Nat
  month : Nat
  day : Nat
  year_range : 1 ≤ year ∧ year ≤ 9999
  month_range : 1 ≤ month ∧ month ≤ 12
  day_range : 1 ≤ day ∧ day ≤ daysIn year month
  deriving DecidableEq, Repr

/-- A time of day, to the microsecond. -/
structure TimeOfDay where
  hour : Nat
  minute : Nat
  second : Nat
  microsecond : Nat
  hour_lt : hour < 24
  minute_lt : minute < 60
  second_lt : second < 60
  microsecond_lt : microsecond < 1000000
  deriving DecidableEq, Repr

/-- A time zone, given by how many minutes its clocks are ahead: less than a day. -/
structure Zone where
  minutes : Int
  minutes_lt : minutes.natAbs < 24 * 60
  deriving DecidableEq, Repr

/-- A date. -/
inductive Date where
  | day (d : Day)
  /-- A day with a time of day. -/
  | moment (d : Day) (t : TimeOfDay)
  /-- A day with a time of day in a time zone. -/
  | zonedMoment (d : Day) (t : TimeOfDay) (z : Zone)
  deriving DecidableEq, Repr

/-! ## 2. Dates from numbers -/

/-- Why there is no such date. -/
inductive DateError where
  | year (year : Nat)
  | month
  | day
  | hour
  | minute
  | second
  | zone (minutes : Int)
  deriving DecidableEq, Repr

/-- How a message writes a number of minutes that is a day or more, in days and seconds. -/
def spanText (minutes : Int) : String :=
  let seconds := minutes.emod 1440 * 60
  "datetime.timedelta(days=" ++ toString (minutes.ediv 1440) ++
    (if seconds = 0 then "" else ", seconds=" ++ toString seconds) ++ ")"

/-- The message of an error. -/
def DateError.message : DateError → String
  | year y => "year " ++ toString y ++ " is out of range"
  | month => "month must be in 1..12"
  | day => "day is out of range for month"
  | hour => "hour must be in 0..23"
  | minute => "minute must be in 0..59"
  | second => "second must be in 0..59"
  | zone minutes =>
    "offset must be a timedelta strictly between -timedelta(hours=24) and " ++
      "timedelta(hours=24), not " ++ spanText minutes ++ "."

/-- The day of a year, a month and a day. -/
def Day.ofNumbers (year month day : Nat) : Except DateError Day :=
  if hyear : 1 ≤ year ∧ year ≤ 9999 then
    if hmonth : 1 ≤ month ∧ month ≤ 12 then
      if hday : 1 ≤ day ∧ day ≤ daysIn year month then .ok ⟨year, month, day, hyear, hmonth, hday⟩
      else .error .day
    else .error .month
  else .error (.year year)

/-- The time of an hour, a minute, a second and less than a second. -/
def TimeOfDay.ofNumbers (hour minute second : Nat) (microsecond : Fin 1000000) :
    Except DateError TimeOfDay :=
  if hhour : hour < 24 then
    if hminute : minute < 60 then
      if hsecond : second < 60 then
        .ok ⟨hour, minute, second, microsecond, hhour, hminute, hsecond, microsecond.isLt⟩
      else .error .second
    else .error .minute
  else .error .hour

/-- The time zone that is a number of minutes ahead. -/
def Zone.ofMinutes (minutes : Int) : Except DateError Zone :=
  if h : minutes.natAbs < 24 * 60 then .ok ⟨minutes, h⟩ else .error (.zone minutes)

/-! ## 3. Texts -/

/-- A number with zeros in front, so that it has at least `width` digits. -/
def padded (width n : Nat) : List Char :=
  let digits := Nat.toDigits 10 n
  List.replicate (width - digits.length) '0' ++ digits

/-- The text of a day. -/
def Day.text (d : Day) : List Char :=
  padded 4 d.year ++ '-' :: padded 2 d.month ++ '-' :: padded 2 d.day

/-- The text of a time of day; a fraction of a second is written only if there is one. -/
def TimeOfDay.text (t : TimeOfDay) : List Char :=
  padded 2 t.hour ++ ':' :: padded 2 t.minute ++ ':' :: padded 2 t.second ++
    if t.microsecond = 0 then [] else '.' :: padded 6 t.microsecond

/-- The text of a time zone. -/
def Zone.text (z : Zone) : List Char :=
  (if z.minutes < 0 then '-' else '+') ::
    (padded 2 (z.minutes.natAbs / 60) ++ ':' :: padded 2 (z.minutes.natAbs % 60))

/-- The text of a date. -/
def Date.text : Date → List Char
  | day d => d.text
  | moment d t => d.text ++ ' ' :: t.text
  | zonedMoment d t z => d.text ++ ' ' :: t.text ++ z.text

/-! ## 4. Comparison -/

/-- How many days the first months of a year have. -/
def daysUpTo (year : Nat) : Nat → Nat
  | 0 => 0
  | month + 1 => daysUpTo year month + daysIn year (month + 1)

/-- How many days the years before a year have, from the year 1 on. -/
def daysBefore (year : Nat) : Nat :=
  365 * (year - 1) + (year - 1) / 4 - (year - 1) / 100 + (year - 1) / 400

/-- The number of a day; the first day of the year 1 has the number 1. -/
def Day.ordinal (d : Day) : Nat := daysBefore d.year + daysUpTo d.year (d.month - 1) + d.day

/-- How many microseconds of the day have passed. -/
def TimeOfDay.microseconds (t : TimeOfDay) : Nat :=
  ((t.hour * 60 + t.minute) * 60 + t.second) * 1000000 + t.microsecond

namespace Date

/-- The forms of a date. -/
inductive Form where
  | day
  | moment
  | zonedMoment
  deriving DecidableEq, Repr

/-- The form of a date. -/
def form : Date → Form
  | day _ => .day
  | moment .. => .moment
  | zonedMoment .. => .zonedMoment

/-- Where a date stands in time, in microseconds; a moment in a time zone stands where the clocks of
    that zone have not been put ahead. -/
def instant : Date → Int
  | day d => d.ordinal * 86400000000
  | moment d t => d.ordinal * 86400000000 + t.microseconds
  | zonedMoment d t z => d.ordinal * 86400000000 + t.microseconds - z.minutes * 60000000

/-- Whether two dates are equal: dates of one form that stand at the same place in time. -/
def same (a b : Date) : Bool := a.form == b.form && a.instant == b.instant

/-- Why two dates are not compared. -/
inductive Mismatch where
  /-- One has a time of day and the other has none. -/
  | dayAndMoment
  /-- One is in a time zone and the other is in none. -/
  | zoneOfOne
  deriving DecidableEq, Repr

/-- The message of a mismatch. -/
def Mismatch.message : Mismatch → String
  | dayAndMoment => "can't compare datetime.datetime to datetime.date"
  | zoneOfOne => "can't compare offset-naive and offset-aware datetimes"

/-- Whether a date is before another one. -/
def isBelow (a b : Date) : Except Mismatch Bool :=
  if a.form = b.form then .ok (decide (a.instant < b.instant))
  else if a.form = .day ∨ b.form = .day then .error .dayAndMoment
  else .error .zoneOfOne

end Date

end Wildcard
