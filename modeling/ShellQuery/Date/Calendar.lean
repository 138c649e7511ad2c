/-
  ShellQuery.Date.Calendar

  The Gregorian calendar without end in both directions: days are numbered from the first of
  January 1970, and `ofDayNumber` undoes `dayNumber`. A year is taken to begin in March, so that
  the leap day is its last.
-/

namespace ShellQuery.Date

/-- A day of the calendar, with month and day counted from one. -/
structure CalendarDay where
  year : Int
  month : Nat
  day : Nat
deriving DecidableEq, Repr

namespace CalendarDay

/-- A year divisible by four, and by four hundred if by one hundred. -/
def isLeapYear (year : Int) : Bool :=
  year % 4 = 0 && (year % 100 ≠ 0 || year % 400 = 0)

/-- The number of days of a month. -/
def daysInMonth (year : Int) (month : Nat) : Nat :=
  if month = 2 then (if isLeapYear year then 29 else 28)
  else if month = 4 || month = 6 || month = 9 || month = 11 then 30
  else 31

/-- Whether the calendar has the day. -/
def isValid (d : CalendarDay) : Bool :=
  1 ≤ d.month && d.month ≤ 12 && 1 ≤ d.day && d.day ≤ daysInMonth d.year d.month

/-- The number of days from the first of January 1970 to a day. -/
def dayNumber (d : CalendarDay) : Int :=
  let year := if d.month ≤ 2 then d.year - 1 else d.year
  let era := year / 400
  let yearOfEra := year % 400
  let dayOfYear : Int := ((153 * ((d.month + 9) % 12) + 2) / 5 + d.day - 1 : Nat)
  let dayOfEra := yearOfEra * 365 + yearOfEra / 4 - yearOfEra / 100 + dayOfYear
  era * 146097 + dayOfEra - 719468

/-- The day with the given number. -/
def ofDayNumber (n : Int) : CalendarDay :=
  let n := n + 719468
  let era := n / 146097
  let dayOfEra := (n % 146097).toNat
  let yearOfEra := (dayOfEra - dayOfEra / 1460 + dayOfEra / 36524 - dayOfEra / 146096) / 365
  let dayOfYear := dayOfEra - (365 * yearOfEra + yearOfEra / 4 - yearOfEra / 100)
  let shifted := (5 * dayOfYear + 2) / 153
  let month := if shifted < 10 then shifted + 3 else shifted - 9
  let year := era * 400 + yearOfEra
  ⟨if month ≤ 2 then year + 1 else year, month, dayOfYear - (153 * shifted + 2) / 5 + 1⟩

end CalendarDay

/-- A moment in Coordinated Universal Time, to the millisecond. -/
structure Moment where
  date : CalendarDay
  hour : Nat
  minute : Nat
  second : Nat
  millisecond : Nat
deriving DecidableEq, Repr

namespace Moment

/-- Milliseconds since the first of January 1970. -/
def toMillis (m : Moment) : Int :=
  ((m.date.dayNumber * 24 + m.hour) * 60 + m.minute) * 60000 + m.second * 1000 + m.millisecond

/-- The moment a number of milliseconds after the first of January 1970. -/
def ofMillis (n : Int) : Moment :=
  let inDay := (n % 86400000).toNat
  { date := .ofDayNumber (n / 86400000)
    hour := inDay / 3600000
    minute := inDay / 60000 % 60
    second := inDay / 1000 % 60
    millisecond := inDay % 1000 }

end Moment

end ShellQuery.Date
