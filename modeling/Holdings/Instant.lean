import Holdings.Calendar
/-!
# Instants

A point in time: whole seconds since the beginning of 1970, and nanoseconds within the second.
During a leap second the nanoseconds run past one thousand million while the seconds stand
still. The instants of the calendar are those whose day is one of its days; moving an instant
out of them gives none.
-/

namespace Holdings

/-- A point in time. -/
structure Instant where
  seconds : Int
  nanos : Nat
deriving DecidableEq, Inhabited

namespace Instant

/-- The nanoseconds of a second. -/
def second : Nat := 1000000000

/-- Whether the instant lies in a leap second. -/
def inLeapSecond (t : Instant) : Bool := second ≤ t.nanos

/-- The earlier of two instants has fewer seconds, or as many and fewer nanoseconds. -/
def compare (a b : Instant) : Ordering :=
  (Ord.compare a.seconds b.seconds).then (Ord.compare a.nanos b.nanos)

/-- The number of the day that the instant lies in. -/
def day (t : Instant) : Int := t.seconds / 86400

/-- The year that the instant lies in. -/
def year (t : Instant) : Int := Calendar.yearOfDay t.day

/-- The month that the instant lies in, counted through all years. -/
def month (t : Instant) : Int := 12 * t.year + Calendar.monthOfDay t.day

/-- Whether the calendar holds the day of the instant. -/
def inCalendar (t : Instant) : Bool :=
  Calendar.yearStart Calendar.firstYear ≤ t.day &&
    t.day < Calendar.yearStart (Calendar.lastYear + 1)

/-- The instant with which a day begins. -/
def startOf (d : Calendar.Date) : Instant := ⟨d.number * 86400, 0⟩

/-- Moves by a number of seconds, without regard to the bounds of the calendar. An instant in a
leap second leaves it: backwards its nanoseconds are those of the second after. -/
def shift (t : Instant) (d : Int) : Instant :=
  if t.inLeapSecond then
    if 0 < d then ⟨t.seconds + d, t.nanos - second⟩
    else if d < 0 then ⟨t.seconds + 1 + d, t.nanos - second⟩
    else t
  else ⟨t.seconds + d, t.nanos⟩

/-- Moves by a number of seconds; none if that leaves the calendar. -/
def plus? (t : Instant) (d : Int) : Option Instant :=
  if (t.shift d).inCalendar then some (t.shift d) else none

end Instant

end Holdings
