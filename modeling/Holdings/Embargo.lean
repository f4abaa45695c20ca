import Holdings.Text.Blank
import Holdings.Text.Numeral
/-!
# Embargoes

An embargo is a signed span of time that is added to the present; if it is negative, it puts a
moving wall into the past. Usually access ends at the wall; of some embargoes it begins there.
The wall is compared at the grain in which the embargo was written, where a month has 30 days
and a year 365.
-/

namespace Holdings

/-- How finely a moving wall is compared. -/
inductive Grain where
  | day
  | month
  | year
deriving DecidableEq, Inhabited

/-- The days that one unit of a grain stands for. -/
def Grain.days : Grain → Int
  | .day => 1
  | .month => 30
  | .year => 365

/-- The letter of a grain. -/
def Grain.ofLetter? (c : Char) : Option Grain :=
  if c = 'D' then some .day
  else if c = 'M' then some .month
  else if c = 'Y' then some .year
  else none

/-- A span in seconds, the side of the wall that it withholds, and the grain of comparison. -/
structure Embargo where
  seconds : Int
  disallowsEarlier : Bool
  grain : Grain
deriving DecidableEq, Inhabited

namespace Embargo

/-- No embargo. -/
def absent : Embargo := ⟨0, false, .day⟩

/-- The milliseconds of the longest span. -/
def longestMillis : Int := 9223372036854775807

/-- The seconds of a number of days, if they make a span. -/
def spanOfDays? (days : Int) : Option Int :=
  if -longestMillis ≤ days * 86400000 ∧ days * 86400000 ≤ longestMillis then some (days * 86400)
  else none

/-- The embargo of `n` units. The number of its days has to fit into 64 bits as well. -/
def ofUnits? (n : Int) (grain : Grain) (disallowsEarlier : Bool) : Option Embargo := do
  let days ← Option.guard Text.isInt64 (n * grain.days)
  let seconds ← spanOfDays? days
  return ⟨seconds, disallowsEarlier, grain⟩

/-- The embargo that withholds the latest `n` days. -/
def ofDaysWithheld (n : Nat) : Embargo := ⟨-(n : Int) * 86400, false, .day⟩

/-! ## Notations -/

/-- Whether access begins at the wall: `R` keeps what is earlier back, `P` what is later. -/
def side? (c : Char) : Option Bool :=
  if c = 'R' then some true else if c = 'P' then some false else none

/-- A side, a number and the letter of a unit, as in `P12M`; the unit counts backwards. -/
def ofColumn? : List Char → Option Embargo
  | [] => some absent
  | side :: rest => do
    let disallowsEarlier ← side? side
    let grain ← rest.getLast?.bind Grain.ofLetter?
    let n ← Text.natural? rest.dropLast
    let units ← Option.guard Text.isInt64 (n : Int)
    ofUnits? (-units) grain disallowsEarlier

/-- The embargo of a KBART column, in either case; an empty column has none. -/
def ofKbart? (s : String) : Option Embargo :=
  ofColumn? ((Text.trim s.toList).map Char.toUpper)

/-- Whether a text starts with a sign. -/
def isSigned : List Char → Bool
  | c :: _ => c = '+' || c = '-'
  | [] => false

/-- A signed number of months or years, as in `-1Y`; an empty text has no embargo. -/
def ofDelay? (s : String) : Option Embargo :=
  let s := Text.trim s.toList
  if s = [] then some absent
  else do
    let grain ← s.getLast?.bind Grain.ofLetter?
    let n ← if isSigned s then Text.int64? s.dropLast else none
    if grain = .day then none else ofUnits? n grain false

/-- A number of days withheld; an empty text has no embargo. -/
def ofDays? (s : String) : Option Embargo :=
  let s := Text.trim s.toList
  if s = [] then some absent else (Text.word32? s).map ofDaysWithheld

end Embargo

end Holdings
