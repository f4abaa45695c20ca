import Holdings.Json.Fault
import Holdings.Text.Numeral
/-!
# Numerals of JSON

The notation of numbers: digits without a leading zero, then maybe a fraction, then maybe an
exponent. A numeral without fraction and exponent that fits into 64 bits is an integer; minus
zero and all others are floating numbers, as far as these reach.

Of the digits before the exponent only those count whose number fits into 64 bits without a
sign. Further digits of the whole part raise the exponent, further digits of the fraction are
dropped.
-/

namespace Holdings.Json

/-- A numeral: its sign, the digits of its whole part and its fraction, and its exponent. -/
structure Numeral where
  negative : Bool
  whole : List Char
  fraction : Option (List Char)
  exponent : Option Int

namespace Numeral

/-- Counts digits in as long as their number fits into 64 bits. The second number is how many
digits are left. -/
def absorb (n : Nat) : List Char → Nat × Nat
  | [] => (n, 0)
  | d :: ds =>
    let m := 10 * n + (d.toNat - '0'.toNat)
    if m < UInt64.size then absorb m ds else (n, ds.length + 1)

/-- The digits that count, as a number, and the power of ten of its last place. -/
def significand (x : Numeral) : Nat × Int :=
  let (n, raised) := absorb 0 x.whole
  let fraction := x.fraction.getD []
  let (n, dropped) := absorb n fraction
  (n, (raised : Int) - (fraction.length - dropped : Nat))

/-- Whether a numeral is written as an integer. -/
def isWhole (x : Numeral) : Bool := x.fraction.isNone && x.exponent.isNone

/-- The integer that a numeral writes, if it is written as one and fits. -/
def integer? (x : Numeral) : Option Int :=
  let n := Nat.ofDigitChars 10 x.whole 0
  if x.isWhole then
    if x.negative then if 0 < n ∧ Text.isInt64 (-(n : Int)) then some (-(n : Int)) else none
    else if n < UInt64.size then some n else none
  else none

/-- The number that a numeral writes; none if it is too large. -/
def value? (x : Numeral) : Option Number :=
  match x.integer? with
  | some n => some (.int n)
  | none =>
    let (n, place) := x.significand
    (Magnitude.ofDecimal? n (place + x.exponent.getD 0)).map fun m => .double ⟨x.negative, m⟩

/-- The digits at the start of a text and the rest. There has to be one; `early` is the fault if
the text ends instead. -/
def digits (early : Fault) (s : List Char) : Except Fault (List Char × List Char) :=
  match s.takeWhile Char.isDigit with
  | [] => .error (if s = [] then early else .malformed)
  | ds => .ok (ds, s.dropWhile Char.isDigit)

/-- A whole part: a zero stands alone. -/
def wholePart (early : Fault) (s : List Char) : Except Fault (List Char × List Char) := do
  let (ds, rest) ← digits early s
  match ds with
  | '0' :: _ :: _ => .error .malformed
  | _ => .ok (ds, rest)

/-- A fraction, if there is a point. -/
def fractionPart (early : Fault) : List Char →
    Except Fault (Option (List Char) × List Char)
  | '.' :: s => do
    let (ds, rest) ← digits early s
    .ok (some ds, rest)
  | s => .ok (none, s)

/-- The sign in front of an exponent, and the rest. -/
def sign : List Char → Bool × List Char
  | '-' :: s => (true, s)
  | '+' :: s => (false, s)
  | s => (false, s)

/-- An exponent, if there is its letter. -/
def exponentPart (early : Fault) : List Char → Except Fault (Option Int × List Char)
  | c :: s =>
    if c = 'e' ∨ c = 'E' then do
      let (negative, s) := sign s
      let (ds, rest) ← digits early s
      let n : Int := Nat.ofDigitChars 10 ds 0
      .ok (some (if negative then -n else n), rest)
    else .ok (none, c :: s)
  | [] => .ok (none, [])

/-- The numeral at the start of a text and the rest. -/
def parse (early : Fault) (s : List Char) : Except Fault (Numeral × List Char) := do
  let (negative, s) := match s with
    | '-' :: rest => (true, rest)
    | s => (false, s)
  let (ds, s) ← wholePart early s
  let (fraction, s) ← fractionPart early s
  let (exponent, s) ← exponentPart early s
  .ok (⟨negative, ds, fraction, exponent⟩, s)

end Numeral

end Holdings.Json
