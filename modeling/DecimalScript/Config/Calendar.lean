import DecimalScript.Decimal.Numeral

/-!
# Days and times

A day of the calendar, and a time on a day, perhaps with the distance from universal time at which
it is read. Dates and times from outside the calendar are refused. Messages show a time in a form
that leaves out what is zero at its end.
-/

namespace DecimalScript

/-- A day of the calendar. -/
structure Date where
  year : Nat
  month : Nat
  day : Nat
deriving DecidableEq

/-- A time on a day. -/
structure Moment where
  date : Date
  hour : Nat
  minute : Nat
  second : Nat
  microsecond : Nat := 0
  /-- The minutes ahead of universal time, if that is known. -/
  offset : Option Int := none
deriving DecidableEq

/-- Why there is no such day or time. -/
inductive CalendarFault where
  | year (year : Nat)
  | month
  | day
  | hour
  | minute
  | second
  /-- A day or more away from universal time. -/
  | offset (minutes : Int)
deriving DecidableEq

namespace Calendar

/-- The number of days in a month. -/
def daysIn (year month : Nat) : Nat :=
  let isLeap := year % 4 == 0 && (year % 100 != 0 || year % 400 == 0)
  if month = 2 then if isLeap then 29 else 28
  else if month = 4 ∨ month = 6 ∨ month = 9 ∨ month = 11 then 30
  else 31

/-- The minutes in a day. -/
def minutesInDay : Nat := 1440

/-- A number with zeros in front, to the given width. -/
def padded (width n : Nat) : String :=
  let digits := Numeral.numeral n
  String.ofList (List.replicate (width - digits.length) '0' ++ digits)

/-- A span of minutes as messages show it: whole days, which may be negative, and the seconds that
are left. -/
def spanShown (minutes : Int) : String :=
  let days := minutes.fdiv minutesInDay
  let seconds := 60 * minutes.fmod minutesInDay
  let parts :=
    (if days = 0 then [] else ["days=" ++ String.ofList (Numeral.signedNumeral days)]) ++
      (if seconds = 0 then [] else ["seconds=" ++ String.ofList (Numeral.signedNumeral seconds)])
  "datetime.timedelta(" ++ (if parts.isEmpty then "0" else ", ".intercalate parts) ++ ")"

end Calendar

/-- The wording of a fault. -/
def CalendarFault.message : CalendarFault → String
  | year y => "year " ++ toString y ++ " is out of range"
  | month => "month must be in 1..12"
  | day => "day is out of range for month"
  | hour => "hour must be in 0..23"
  | minute => "minute must be in 0..59"
  | second => "second must be in 0..59"
  | offset minutes =>
    "offset must be a timedelta strictly between -timedelta(hours=24) and " ++
      "timedelta(hours=24), not " ++ Calendar.spanShown minutes ++ "."

namespace Date

/-- The day itself, if it is in the calendar. -/
def checked (d : Date) : Except CalendarFault Date :=
  if d.year = 0 then .error (.year d.year)
  else if d.month = 0 ∨ 12 < d.month then .error .month
  else if d.day = 0 ∨ Calendar.daysIn d.year d.month < d.day then .error .day
  else .ok d

/-- Year, month and day with dashes between them. -/
def text (d : Date) : String :=
  "-".intercalate [Calendar.padded 4 d.year, Calendar.padded 2 d.month, Calendar.padded 2 d.day]

/-- A day as messages show it. -/
def shown (d : Date) : String :=
  "datetime.date(" ++ ", ".intercalate ([d.year, d.month, d.day].map toString) ++ ")"

end Date

namespace Moment

/-- The time itself, if it is in the calendar. The distance from universal time is looked at first.
-/
def checked (m : Moment) : Except CalendarFault Moment := do
  match m.offset with
  | some minutes =>
    if Calendar.minutesInDay ≤ minutes.natAbs then .error (.offset minutes)
  | none => pure ()
  let _ ← m.date.checked
  if 23 < m.hour then .error .hour
  else if 59 < m.minute then .error .minute
  else if 59 < m.second then .error .second
  else .ok m

/-- The distance from universal time in hours and minutes, with its sign. -/
def offsetText (minutes : Int) : String :=
  (if minutes < 0 then "-" else "+") ++ Calendar.padded 2 (minutes.natAbs / 60) ++ ":" ++
    Calendar.padded 2 (minutes.natAbs % 60)

/-- The day and the time, with microseconds if there are any. -/
def text (m : Moment) : String :=
  let clock := ":".intercalate ([m.hour, m.minute, m.second].map (Calendar.padded 2))
  let rest := if m.microsecond = 0 then "" else "." ++ Calendar.padded 6 m.microsecond
  m.date.text ++ " " ++ clock ++ rest ++ (m.offset.map offsetText).getD ""

/-- A distance from universal time as messages show it. -/
def offsetShown (minutes : Int) : String :=
  if minutes = 0 then ", tzinfo=datetime.timezone.utc"
  else ", tzinfo=datetime.timezone(" ++ Calendar.spanShown minutes ++ ")"

/-- A time as messages show it: without microseconds if there are none, and then without seconds if
there are none. -/
def shown (m : Moment) : String :=
  let least := [m.date.year, m.date.month, m.date.day, m.hour, m.minute]
  let rest :=
    if m.microsecond ≠ 0 then [m.second, m.microsecond]
    else if m.second ≠ 0 then [m.second]
    else []
  "datetime.datetime(" ++ ", ".intercalate ((least ++ rest).map toString) ++
    (m.offset.map offsetShown).getD "" ++ ")"

end Moment

end DecimalScript
