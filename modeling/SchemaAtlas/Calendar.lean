import SchemaAtlas.Text.Digit

/-!
# Dates and moments

Calendar dates and points in time, with the checks that make them valid and the forms in which they
are written. A moment may carry its distance from universal time, in seconds.
-/
namespace SchemaAtlas

structure Date where
  year : Nat
  month : Nat
  day : Nat
  deriving DecidableEq

structure Moment where
  date : Date
  hour : Nat
  minute : Nat
  second : Nat
  microsecond : Nat
  /-- Seconds east of universal time; a local moment has none. -/
  offset : Option Int
  deriving DecidableEq

/-- Why a date or a moment does not exist. -/
inductive CalendarError
  | year (value : Nat)
  | month
  | day
  | hour
  | minute
  | second
  | offset (seconds : Int)
  deriving DecidableEq

/-- A length of time as a count of days and of the seconds left over. -/
def durationText (seconds : Int) : String :=
  let days := Int.fdiv seconds 86400
  let rest := Int.fmod seconds 86400
  let parts :=
    (if days = 0 then [] else ["days=" ++ toString days]) ++
      (if rest = 0 then [] else ["seconds=" ++ toString rest])
  "datetime.timedelta(" ++ (if parts.isEmpty then "0" else ", ".intercalate parts) ++ ")"

namespace CalendarError

def message : CalendarError → String
  | year value => "year " ++ toString value ++ " is out of range"
  | month => "month must be in 1..12"
  | day => "day is out of range for month"
  | hour => "hour must be in 0..23"
  | minute => "minute must be in 0..59"
  | second => "second must be in 0..59"
  | offset seconds =>
    "offset must be a timedelta strictly between -timedelta(hours=24) and timedelta(hours=24), not "
      ++ durationText seconds ++ "."

end CalendarError

namespace Date

/-- A year divisible by four is a leap year, a century only if it is divisible by 400. -/
def isLeap (year : Nat) : Bool := year % 4 = 0 && (year % 100 != 0 || year % 400 = 0)

def daysInMonth (year month : Nat) : Nat :=
  if month = 2 then (if isLeap year then 29 else 28)
  else if month = 4 || month = 6 || month = 9 || month = 11 then 30
  else 31

/-- The date, checked year first, then month, then day. -/
def make (year month day : Nat) : Except CalendarError Date :=
  if year < 1 || year > 9999 then .error (.year year)
  else if month < 1 || month > 12 then .error .month
  else if day < 1 || day > daysInMonth year month then .error .day
  else .ok ⟨year, month, day⟩

/-- The written form `2024-02-29`. -/
def text (d : Date) : String :=
  Text.decimalPadded 4 d.year ++ "-" ++ Text.decimalPadded 2 d.month ++ "-" ++
    Text.decimalPadded 2 d.day

/-- The form in which messages show a date. -/
def shown (d : Date) : String :=
  "datetime.date(" ++ ", ".intercalate [toString d.year, toString d.month, toString d.day] ++ ")"

/-- Days since the first of January of year one. -/
def ordinal (d : Date) : Nat :=
  let before := d.year - 1
  let months :=
    (List.range (d.month - 1)).foldl (fun days month => days + daysInMonth d.year (month + 1)) 0
  before * 365 + before / 4 - before / 100 + before / 400 + months + d.day

end Date

namespace Moment

/-- The moment, the offset checked first, then the date, then the time of day. -/
def make (year month day hour minute second microsecond : Nat) (offset : Option Int) :
    Except CalendarError Moment := do
  match offset with
  | some seconds => if seconds.natAbs ≥ 86400 then throw (.offset seconds)
  | none => pure ()
  let date ← Date.make year month day
  if hour > 23 then throw .hour
  if minute > 59 then throw .minute
  if second > 59 then throw .second
  return ⟨date, hour, minute, second, microsecond, offset⟩

/-- An offset as `+05:30`, with seconds only where there are some. -/
def offsetText (offset : Int) : String :=
  let size := offset.natAbs
  let hours := Text.decimalPadded 2 (size / 3600)
  let minutes := Text.decimalPadded 2 (size / 60 % 60)
  let seconds := if size % 60 = 0 then "" else ":" ++ Text.decimalPadded 2 (size % 60)
  (if offset < 0 then "-" else "+") ++ hours ++ ":" ++ minutes ++ seconds

/-- The written form, with `separator` between date and time. -/
def text (separator : String) (m : Moment) : String :=
  let time := ":".intercalate ([m.hour, m.minute, m.second].map (Text.decimalPadded 2))
  let fraction :=
    if m.microsecond = 0 then "" else "." ++ Text.decimalPadded 6 m.microsecond
  m.date.text ++ separator ++ time ++ fraction ++ (m.offset.map offsetText).getD ""

/-- The form in which messages show a moment: zero seconds and microseconds at the end are left out. -/
def shown (m : Moment) : String :=
  let time := [m.hour, m.minute, m.second, m.microsecond]
  let time := if m.microsecond = 0 then time.take 3 else time
  let time := if m.microsecond = 0 && m.second = 0 then time.take 2 else time
  let zone :=
    match m.offset with
    | none => []
    | some 0 => ["tzinfo=datetime.timezone.utc"]
    | some seconds => ["tzinfo=datetime.timezone(" ++ durationText seconds ++ ")"]
  "datetime.datetime(" ++ ", ".intercalate
    ([m.date.year, m.date.month, m.date.day].map toString ++ time.map toString ++ zone) ++ ")"

/-- Microseconds since the start of the calendar, in universal time where the offset is known. -/
def instant (m : Moment) : Int :=
  let seconds : Int := m.date.ordinal * 86400 + m.hour * 3600 + m.minute * 60 + m.second
  (seconds - m.offset.getD 0) * 1000000 + m.microsecond

/-- Two moments are the same if both or neither know their offset and they are one instant. -/
def same (a b : Moment) : Bool :=
  a.offset.isSome == b.offset.isSome && a.instant == b.instant

end Moment
end SchemaAtlas
