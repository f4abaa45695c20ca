import Holdings.Instant
import Holdings.Text.Numeral
/-!
# Timestamps

Date, time of day and offset from universal time in the notation of the internet:
`2006-01-02T15:04:05.25+01:00`. The letter between date and time may be small or a blank, the
offset may be `Z` in either case, and its minus sign may be the hyphen or the true minus.
Second 60 is a leap second.
-/

namespace Holdings

/-- A date and a time of day, as a clock shows them that is `offset` minutes ahead of universal
time. -/
structure Timestamp where
  date : Calendar.Date
  hour : Nat
  minute : Nat
  second : Nat
  nanos : Nat
  offset : Int

namespace Timestamp

/-- Exactly `n` digits, and the rest. -/
def digits? (n : Nat) (s : List Char) : Option (Nat × List Char) :=
  if (s.take n).length = n ∧ (s.take n).all Char.isDigit then
    some (Nat.ofDigitChars 10 (s.take n) 0, s.drop n)
  else none

/-- One given character, and the rest. -/
def char? (c : Char) : List Char → Option (List Char)
  | [] => none
  | c' :: s => if c' = c then some s else none

/-- The character between date and time, and the rest. -/
def clockMark? : List Char → Option (List Char)
  | [] => none
  | c :: s => if c = 'T' ∨ c = 't' ∨ c = ' ' then some s else none

/-- Nanoseconds after a decimal point, if there is one: at least one digit, of which those after
the ninth do not count. -/
def fraction? : List Char → Option (Nat × List Char)
  | '.' :: s =>
    let digits := s.takeWhile Char.isDigit
    let counted := digits.take 9
    if digits = [] then none
    else some (Nat.ofDigitChars 10 (counted.rightpad 9 '0') 0, s.dropWhile Char.isDigit)
  | s => some (0, s)

/-- Hours and minutes of an offset. -/
def span? (s : List Char) : Option (Nat × List Char) := do
  let (hours, s) ← digits? 2 s
  let s ← char? ':' s
  let (minutes, s) ← digits? 2 s
  if hours < 24 ∧ minutes < 60 then some (60 * hours + minutes, s) else none

/-- An offset in minutes, and the rest. -/
def offset? : List Char → Option (Int × List Char)
  | [] => none
  | c :: s =>
    if c = 'Z' ∨ c = 'z' then some (0, s)
    else if c = '+' then (span? s).map fun (n, s) => ((n : Int), s)
    else if c = '-' ∨ c = '\u2212' then (span? s).map fun (n, s) => (-(n : Int), s)
    else none

/-- The timestamp that a whole text writes. -/
def parse? (s : List Char) : Option Timestamp := do
  let (year, s) ← digits? 4 s
  let s ← char? '-' s
  let (month, s) ← digits? 2 s
  let s ← char? '-' s
  let (day, s) ← digits? 2 s
  let s ← clockMark? s
  let (hour, s) ← digits? 2 s
  let s ← char? ':' s
  let (minute, s) ← digits? 2 s
  let s ← char? ':' s
  let (second, s) ← digits? 2 s
  let (nanos, s) ← fraction? s
  let (offset, s) ← offset? s
  let date ← Calendar.Date.ofYmd? year month day
  if s = [] ∧ hour < 24 ∧ minute < 60 ∧ second ≤ 60 then
    some ⟨date, hour, minute, second, nanos, offset⟩
  else none

/-- The point in time that a timestamp names. -/
def instant (t : Timestamp) : Instant :=
  let start := (Instant.startOf t.date).seconds
  let clock := (t.hour : Int) * 3600 + t.minute * 60 - t.offset * 60
  if t.second = 60 then ⟨start + clock + 59, t.nanos + Instant.second⟩
  else ⟨start + clock + t.second, t.nanos⟩

end Timestamp

end Holdings
