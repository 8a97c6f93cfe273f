/-!
# Dates

The Gregorian calendar, extended to all years from year one on. Days are counted from the first day
of year one, which has number zero, so that a day number and a date determine each other.

## Main definitions

* `Date.dayNumber` counts the days before a date.
* `Date.ofDayNumber` finds the date of a day.

## Implementation notes

Four hundred years have 146097 days, a century without its last leap day 36524, four years with
theirs 1461. The last century of four hundred years and the last year of four are one day longer
than the others, so the quotients that count them are bounded by three.
-/

namespace QueryComposer.Calendar

/-- A year, a month and a day, each counted from one. Not every such triple is a day of the
calendar. -/
structure Date where
  year : Nat
  month : Nat
  day : Nat
deriving DecidableEq, Repr

/-- Every fourth year is a leap year, but for the centuries that four hundred does not divide. -/
def isLeap (year : Nat) : Bool := year % 4 = 0 && (year % 100 ≠ 0 || year % 400 = 0)

/-- The days of each month of the year. -/
def monthLengths (year : Nat) : List Nat :=
  [31, if isLeap year then 29 else 28, 31, 30, 31, 30, 31, 31, 30, 31, 30, 31]

/-- The days from the first of year one to the first of this year. -/
def daysBeforeYear (year : Nat) : Nat :=
  let y := year - 1
  365 * y + y / 4 - y / 100 + y / 400

/-- The days of the months before this one. -/
def daysBeforeMonth (year month : Nat) : Nat :=
  ((monthLengths year).take (month - 1)).foldr (· + ·) 0

/-- The year of a day, and the days of that year before it. -/
def splitYear (n : Nat) : Nat × Nat :=
  let cycles := n / 146097
  let n := n % 146097
  let centuries := min 3 (n / 36524)
  let n := n - 36524 * centuries
  let fours := n / 1461
  let n := n % 1461
  let years := min 3 (n / 365)
  (400 * cycles + 100 * centuries + 4 * fours + years + 1, n - 365 * years)

/-- How many of the months lie before a day, and the days of the next month before it. -/
def splitMonths : List Nat → Nat → Nat × Nat
  | [], n => (0, n)
  | length :: lengths, n =>
    if n < length then (0, n)
    else
      let (months, days) := splitMonths lengths (n - length)
      (months + 1, days)

namespace Date

/-- The month is one of the twelve, and the day one of the month. -/
def IsValid (d : Date) : Prop :=
  1 ≤ d.year ∧ 1 ≤ d.month ∧ 1 ≤ d.day ∧
    ∃ n, (monthLengths d.year)[d.month - 1]? = some n ∧ d.day ≤ n

/-- The days before the date, from the first day of year one on. -/
def dayNumber (d : Date) : Nat :=
  daysBeforeYear d.year + daysBeforeMonth d.year d.month + (d.day - 1)

/-- The date that has so many days before it. -/
def ofDayNumber (n : Nat) : Date :=
  let (year, days) := splitYear n
  let (months, days) := splitMonths (monthLengths year) days
  ⟨year, months + 1, days + 1⟩

end Date

end QueryComposer.Calendar
