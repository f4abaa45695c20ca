import Holdings.Json.Double
/-!
# Shortest decimals

The decimal by which a floating number is shown: of the decimals that would be brought to this
number those with the fewest digits, and of these the nearest. All reals between the halves of
the way to both neighbours are brought to a number, and the ends of this interval as well if the
last binary digit of the number is even.

On the grid of a number of digits only the two points around the number have to be asked, since
a point of the grid lies in the interval only if one of these two does.
-/

namespace Holdings

/-- A decimal n · 10^e. -/
structure Decimal where
  digits : Nat
  exponent : Int
deriving DecidableEq, Inhabited

/-- A number and the ends of its interval, as fractions of one denominator. -/
structure Interval where
  low : Nat
  value : Nat
  high : Nat
  denominator : Nat
  closed : Bool

namespace Magnitude

/-- The interval of the reals that are brought to a number. The neighbour below a power of two
is only half as far away as the one above. -/
def interval (x : Magnitude) : Interval :=
  let below := if x.mantissa = leastFull ∧ leastExponent < x.exponent then 1 else 2
  let places := (x.exponent - 2).toNat
  { low := (4 * x.mantissa - below) <<< places
    value := (4 * x.mantissa) <<< places
    high := (4 * x.mantissa + 2) <<< places
    denominator := 1 <<< (2 - x.exponent).toNat
    closed := x.mantissa % 2 = 0 }

end Magnitude

namespace Interval

/-- Whether c · 10^e lies in the interval. -/
def contains (i : Interval) (c : Nat) (e : Int) : Bool :=
  let point := c * Nat.pow 10 e.toNat * i.denominator
  let scale := Nat.pow 10 (-e).toNat
  if i.closed then i.low * scale ≤ point && point ≤ i.high * scale
  else i.low * scale < point && point < i.high * scale

/-- Of the two points around the number on the grid of 10^e, the one that lies in the interval;
of both the nearer one, and the even one if they are equally near. -/
def onGrid? (i : Interval) (e : Int) : Option Decimal :=
  let unit := Nat.pow 10 e.toNat * i.denominator
  let value := i.value * Nat.pow 10 (-e).toNat
  let c := value / unit
  let r := value % unit
  match i.contains c e, i.contains (c + 1) e with
  | true, true =>
    if 2 * r < unit ∨ (2 * r = unit ∧ c % 2 = 0) then some ⟨c, e⟩ else some ⟨c + 1, e⟩
  | true, false => some ⟨c, e⟩
  | false, true => some ⟨c + 1, e⟩
  | false, false => none

/-- The power of ten of the first digit of the number. -/
def firstPlace (i : Interval) : Int :=
  ((toString (i.value * Nat.pow 10 400 / i.denominator)).length : Int) - 401

end Interval

/-- A decimal without zeros at its end; the fuel is the number of zeros that may be taken
away. -/
def Decimal.strip (d : Decimal) : Nat → Decimal
  | 0 => d
  | fuel + 1 =>
    if d.digits ≠ 0 ∧ d.digits % 10 = 0 then
      (Decimal.mk (d.digits / 10) (d.exponent + 1)).strip fuel
    else d

/-- The shortest decimal of a number that is not 0. Seventeen digits are always enough. -/
def Magnitude.shortest (x : Magnitude) : Decimal :=
  let i := x.interval
  let place := i.firstPlace
  match (List.range 17).findSome? fun (n : Nat) => i.onGrid? (place - n) with
  | some d => d.strip 17
  | none => ⟨0, 0⟩

end Holdings
