/-!
# The calendar

Dates of the Gregorian calendar, carried back before its first year, and the number of each
day counted from the first of January 1970. The years are bounded; a date outside of the
bounds is no date here.

A day number is turned back into its year by a guess: 400 years have 146097 days, and the
guess that follows from this ratio is off by at most one year.
-/

namespace Holdings.Calendar

/-- The first year that dates may have. -/
def firstYear : Int := -262143

/-- The last year that dates may have. -/
def lastYear : Int := 262142

/-- Every fourth year is a leap year, but of the centuries only every fourth. -/
def isLeap (year : Int) : Bool :=
  year % 4 = 0 && (year % 100 ≠ 0 || year % 400 = 0)

/-- The lengths of the twelve months of a year. -/
def monthLengths (year : Int) : List Nat :=
  [31, if isLeap year then 29 else 28, 31, 30, 31, 30, 31, 31, 30, 31, 30, 31]

/-- The length of a month, which is counted from 1; none of the others has any day. -/
def daysInMonth (year : Int) : Nat → Nat
  | 0 => 0
  | month + 1 => (monthLengths year).getD month 0

/-- Whether year, month and day name a day. -/
def isDate (year : Int) (month day : Nat) : Bool :=
  firstYear ≤ year && year ≤ lastYear && 1 ≤ day && day ≤ daysInMonth year month

/-- A day of the calendar. -/
structure Date where
  year : Int
  month : Nat
  day : Nat
  real : isDate year month day = true
deriving DecidableEq

/-- The day that year, month and day name. -/
def Date.ofYmd? (year : Int) (month day : Nat) : Option Date :=
  if h : isDate year month day = true then some ⟨year, month, day, h⟩ else none

/-! ## Numbers of days -/

/-- The number of the first day of a year, where the first of January 1970 has number 0. -/
def yearStart (year : Int) : Int :=
  let y := year - 1
  365 * y + y / 4 - y / 100 + y / 400 - 719162

/-- The days of a year before the first of a month. -/
def daysBeforeMonth (year : Int) (month : Nat) : Nat :=
  ((monthLengths year).take (month - 1)).foldr (· + ·) 0

/-- The number of a day. -/
def Date.number (d : Date) : Int :=
  yearStart d.year + daysBeforeMonth d.year d.month + (d.day - 1)

/-- The year that holds the day with this number. -/
def yearOfDay (n : Int) : Int :=
  let guess := (400 * (n + 719162)) / 146097 + 1
  if n < yearStart guess then guess - 1
  else if yearStart (guess + 1) ≤ n then guess + 1
  else guess

/-- The number of whole months, of the given lengths, that pass in `n` days. -/
def wholeMonths : List Nat → Nat → Nat
  | [], _ => 0
  | length :: lengths, n => if n < length then 0 else wholeMonths lengths (n - length) + 1

/-- The month, counted from 1, that holds the day with this number. -/
def monthOfDay (n : Int) : Nat :=
  let year := yearOfDay n
  wholeMonths (monthLengths year) (n - yearStart year).toNat + 1

end Holdings.Calendar
