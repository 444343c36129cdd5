import Mathlib.Data.Int.Basic
import Mathlib.Tactic.IntervalCases

/-!
# The Gregorian calendar

Days are counted from 1970-01-01, backwards as well.  `dayOfDate` and `dateOfDay` convert between a
day and its date in the proleptic Gregorian calendar, by the formulas that JavaScript's dates use.
-/

namespace Calendar

/-- A date: the month is 1 to 12, the day of the month starts with 1. -/
structure Date where
  year : Int
  month : Int
  day : Int
  deriving DecidableEq, Repr

/-- The first day of a year. -/
def dayFromYear (year : Int) : Int :=
  365 * (year - 1970) + (year - 1969) / 4 - (year - 1901) / 100 + (year - 1601) / 400

/-- One day more in a leap year. -/
def leapDay (year : Int) : Int :=
  if year % 4 = 0 ∧ (year % 100 ≠ 0 ∨ year % 400 = 0) then 1 else 0

/-- The days of a year before its month: 31, 59 and so on without the leap day. -/
def daysBefore (month : Int) : Int :=
  if month ≤ 1 then 0
  else if month = 2 then 31
  else if month = 3 then 59
  else if month = 4 then 90
  else if month = 5 then 120
  else if month = 6 then 151
  else if month = 7 then 181
  else if month = 8 then 212
  else if month = 9 then 243
  else if month = 10 then 273
  else if month = 11 then 304
  else if month = 12 then 334
  else 365

/-- The days of a year before its month, with the leap day. -/
def monthStart (year month : Int) : Int := daysBefore month + if 3 ≤ month then leapDay year else 0

/-- The day of a date; a day of the month past its end is one of the next month. -/
def dayOfDate (year month day : Int) : Int := dayFromYear year + monthStart year month + day - 1

/-- The year that a day is in. -/
def yearOfDay (day : Int) : Int :=
  let guess := 1970 + day * 400 / 146097
  if day < dayFromYear guess then guess - 1
  else if dayFromYear (guess + 1) ≤ day then guess + 1
  else guess

/-- The month that a day of the year is in. -/
def monthOf (year dayOfYear : Int) : Int :=
  if dayOfYear < monthStart year 2 then 1
  else if dayOfYear < monthStart year 3 then 2
  else if dayOfYear < monthStart year 4 then 3
  else if dayOfYear < monthStart year 5 then 4
  else if dayOfYear < monthStart year 6 then 5
  else if dayOfYear < monthStart year 7 then 6
  else if dayOfYear < monthStart year 8 then 7
  else if dayOfYear < monthStart year 9 then 8
  else if dayOfYear < monthStart year 10 then 9
  else if dayOfYear < monthStart year 11 then 10
  else if dayOfYear < monthStart year 12 then 11
  else 12

/-- The date of a day. -/
def dateOfDay (day : Int) : Date :=
  let year := yearOfDay day
  let month := monthOf year (day - dayFromYear year)
  { year, month, day := day - dayFromYear year - monthStart year month + 1 }

/-- The day of the week, Sunday is 0. -/
def weekday (day : Int) : Int := (day + 4) % 7

example : dateOfDay 0 = { year := 1970, month := 1, day := 1 } := by decide

example : dateOfDay (dayOfDate 2024 2 29 + 1) = { year := 2024, month := 3, day := 1 } := by decide

end Calendar
