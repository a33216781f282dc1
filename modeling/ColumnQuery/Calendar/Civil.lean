/-
  The proleptic Gregorian calendar in UTC.

  A moment is a number of milliseconds since 1970-01-01T00:00Z. `daysFromCivil` numbers the
  days of the calendar with 1970-01-01 as day `0`; `civilFromDays` takes the number apart
  again. Both count in eras of 400 years (146097 days), with the year turned to begin in March
  so that the leap day comes last.

  Dates are limited to the years -262143 to 262142; a moment outside has no date.
-/

namespace ColumnQuery.Calendar

/-- A day of the calendar; months and days count from `1`. -/
structure CivilDate where
  year : Int
  month : Nat
  day : Nat
deriving DecidableEq, Repr

def minYear : Int := -262143

def maxYear : Int := 262142

def isLeapYear (year : Int) : Bool := year % 4 == 0 && (year % 100 != 0 || year % 400 == 0)

def daysInMonth (year : Int) (month : Nat) : Nat :=
  if month = 2 then if isLeapYear year then 29 else 28
  else if month = 4 ∨ month = 6 ∨ month = 9 ∨ month = 11 then 30
  else 31

/-- The date, if there is such a day within the limits. -/
def civilDate? (year : Int) (month day : Nat) : Option CivilDate :=
  if minYear ≤ year ∧ year ≤ maxYear ∧ 1 ≤ month ∧ month ≤ 12 ∧ 1 ≤ day
      ∧ day ≤ daysInMonth year month then
    some ⟨year, month, day⟩
  else none

/-- The number of a day, from 1970-01-01. -/
def daysFromCivil (d : CivilDate) : Int :=
  let year := if d.month ≤ 2 then d.year - 1 else d.year
  let era := year / 400
  let yearOfEra := year % 400
  let month : Int := if d.month ≤ 2 then d.month + 9 else d.month - 3
  let dayOfYear := (153 * month + 2) / 5 + d.day - 1
  era * 146097 + (yearOfEra * 365 + yearOfEra / 4 - yearOfEra / 100 + dayOfYear) - 719468

/-- The day with a given number. -/
def civilFromDays (days : Int) : CivilDate :=
  let z := days + 719468
  let era := z / 146097
  let dayOfEra := z % 146097
  let yearOfEra := (dayOfEra - dayOfEra / 1460 + dayOfEra / 36524 - dayOfEra / 146096) / 365
  let dayOfYear := dayOfEra - (365 * yearOfEra + yearOfEra / 4 - yearOfEra / 100)
  let shifted := (5 * dayOfYear + 2) / 153
  let day := dayOfYear - (153 * shifted + 2) / 5 + 1
  let month := if shifted < 10 then shifted + 3 else shifted - 9
  let year := yearOfEra + era * 400
  ⟨if month ≤ 2 then year + 1 else year, month.toNat, day.toNat⟩

def millisPerDay : Int := 86400000

/-- Date and time of day of a moment. -/
structure DateTime where
  date : CivilDate
  /-- Milliseconds since midnight. -/
  time : Nat
deriving DecidableEq, Repr

/-- The first millisecond with a date. -/
def minMoment : Int := daysFromCivil ⟨minYear, 1, 1⟩ * millisPerDay

/-- The last millisecond with a date. -/
def maxMoment : Int := (daysFromCivil ⟨maxYear, 12, 31⟩ + 1) * millisPerDay - 1

/-- The date and time of a moment within the limits. -/
def dateTime? (ms : Int) : Option DateTime :=
  if minMoment ≤ ms ∧ ms ≤ maxMoment then
    some ⟨civilFromDays (ms / millisPerDay), (ms % millisPerDay).toNat⟩
  else none

namespace DateTime

def hour (t : DateTime) : Nat := t.time / 3600000

def minute (t : DateTime) : Nat := t.time / 60000 % 60

def second (t : DateTime) : Nat := t.time / 1000 % 60

def millisecond (t : DateTime) : Nat := t.time % 1000

/-- Days since Sunday; day `0` of the count was a Thursday. -/
def weekday (t : DateTime) : Nat := ((daysFromCivil t.date + 4) % 7).toNat

end DateTime

/-- The moment at which a day begins. -/
def startOfDay (d : CivilDate) : Int := daysFromCivil d * millisPerDay

end ColumnQuery.Calendar
