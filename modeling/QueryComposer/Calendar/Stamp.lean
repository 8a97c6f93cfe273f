import QueryComposer.Calendar.Date
import QueryComposer.Text.Digits

/-!
# Time stamps

A time stamp is the text of a moment in universal time, to the millisecond and always of the same
length, so that stamps are ordered as texts in the way the moments are. It exists for moments of the
years 1 to 9999.

## Main definitions

* `LocalTime.instant` is the moment that a clock and its offset show.
* `LocalTime.universal` is what a clock without an offset shows at a moment.
* `LocalTime.stamp?` is the stamp of the moment.
-/

namespace QueryComposer.Calendar

/-- How far a clock is ahead of universal time. -/
structure Offset where
  microseconds : Int
deriving DecidableEq, Repr

/-- The unit of clocks is the microsecond. -/
def microsecondsPerSecond : Nat := 1000000

/-- Most offsets are whole seconds. -/
instance : Coe Int Offset := ⟨fun seconds => ⟨microsecondsPerSecond * seconds⟩⟩

/-- What a clock shows. -/
structure LocalTime where
  date : Date
  hour : Nat
  minute : Nat
  second : Nat
  microsecond : Nat
  offset : Offset
deriving DecidableEq, Repr

/-- The seconds of a day, none of which is a leap second. -/
def secondsPerDay : Nat := 86400

/-- The number of days in the years 1 to 9999. -/
def dayLimit : Nat := daysBeforeYear 10000

namespace LocalTime

/-- Whole seconds since the first day of year one began by this clock. -/
def seconds (t : LocalTime) : Nat :=
  secondsPerDay * t.date.dayNumber + 3600 * t.hour + 60 * t.minute + t.second

/-- Microseconds of universal time since the first day of year one began. -/
def instant (t : LocalTime) : Int :=
  Int.ofNat (microsecondsPerSecond * t.seconds + t.microsecond) - t.offset.microseconds

/-- What the clock of universal time shows then. -/
def universal (instant : Nat) : LocalTime :=
  let seconds := instant / microsecondsPerSecond
  let rest := seconds % secondsPerDay
  ⟨Date.ofDayNumber (seconds / secondsPerDay), rest / 3600, rest / 60 % 60, rest % 60,
    instant % microsecondsPerSecond, ⟨0⟩⟩

/-- The numbers in a stamp. Microseconds are cut off, not rounded. -/
def numbers (t : LocalTime) : List Nat :=
  [t.date.year, t.date.month, t.date.day, t.hour, t.minute, t.second, t.microsecond / 1000]

/-- How many digits each number has, and the mark that stands behind it. -/
def layout : List (Nat × Char) :=
  [(4, '-'), (2, '-'), (2, 'T'), (2, ':'), (2, ':'), (2, '.'), (3, 'Z')]

/-- The time on a clock of universal time, such as `2024-02-29T23:59:59.999Z`. -/
def text (t : LocalTime) : String := String.ofList (Text.fields layout t.numbers)

/-- The stamp of the moment, if universal time has it in the years 1 to 9999. -/
def stamp? (t : LocalTime) : Option String :=
  if 0 ≤ t.instant ∧ t.instant < Int.ofNat (microsecondsPerSecond * (secondsPerDay * dayLimit)) then
    some (universal t.instant.toNat).text
  else none

end LocalTime

end QueryComposer.Calendar
