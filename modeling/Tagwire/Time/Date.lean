/-!
# Dates

Days are counted in the Gregorian calendar extended to all years, from the first of January 1970.  The
count is simplest in years that begin with March, because then the leap day comes last: four hundred such
years always have 146097 days, and within a year the months from March on begin on the days
`(153 m + 2) / 5`.
-/

set_option autoImplicit false

namespace Tagwire

/-- A date. -/
structure Date where
  year : Int
  month : Nat
  day : Nat
deriving DecidableEq, Repr, Inhabited

namespace Date

/-- Is the year one with a leap day? -/
def isLeapYear (year : Int) : Bool := year % 4 == 0 && (year % 100 != 0 || year % 400 == 0)

/-- The number of days of a month. -/
def monthLength (year : Int) (month : Nat) : Nat :=
  if month = 2 then if isLeapYear year then 29 else 28
  else if month = 4 ∨ month = 6 ∨ month = 9 ∨ month = 11 then 30
  else 31

/-- Is it a day of the calendar? -/
def isValid (date : Date) : Bool :=
  1 ≤ date.month && date.month ≤ 12 && 1 ≤ date.day && date.day ≤ monthLength date.year date.month

/-- The days of four hundred years. -/
def eraDays : Int := 146097

/-- The days from the first of March of the year 0 to the first of January 1970. -/
def epochDay : Int := 719468

/-- The number of days from the first of January 1970 to a date. -/
def dayNumber (date : Date) : Int :=
  let year := if date.month ≤ 2 then date.year - 1 else date.year
  let monthsFromMarch : Int := (date.month + 9) % 12
  let yearOfEra := year % 400
  let dayOfYear := (153 * monthsFromMarch + 2) / 5 + date.day - 1
  let dayOfEra := 365 * yearOfEra + yearOfEra / 4 - yearOfEra / 100 + dayOfYear
  year / 400 * eraDays + dayOfEra - epochDay

/-- The date some number of days from the first of January 1970. -/
def ofDayNumber (n : Int) : Date :=
  let dayOfEra := (n + epochDay) % eraDays
  let yearOfEra := (dayOfEra - dayOfEra / 1460 + dayOfEra / 36524 - dayOfEra / 146096) / 365
  let dayOfYear := dayOfEra - (365 * yearOfEra + yearOfEra / 4 - yearOfEra / 100)
  let monthsFromMarch := (5 * dayOfYear + 2) / 153
  let month := (monthsFromMarch + 2) % 12 + 1
  let year := (n + epochDay) / eraDays * 400 + yearOfEra
  { year := if month ≤ 2 then year + 1 else year
    month := month.toNat
    day := (dayOfYear - (153 * monthsFromMarch + 2) / 5 + 1).toNat }

end Date

end Tagwire
