import Holdings.Json.Shortest
/-!
# Numbers of JSON

A number is an integer of 64 bits, with a sign or without one, or else a floating number. A
floating number is written with the digits of its shortest decimal: with a decimal point and at
least one digit behind it if the first digit stands at 10^-5 to 10^15, and otherwise with one
digit before the point and an exponent with its sign.
-/

namespace Holdings.Json

/-- A number. -/
inductive Number where
  | int (n : Int)
  | double (x : Double)
deriving DecidableEq

/-- Digits with an exponent; the first digit stands at `place`. -/
def scientific (digits : List Char) (place : Int) : List Char :=
  let exponent := 'e' :: (if place < 0 then '-' else '+') :: (toString place.natAbs).toList
  match digits with
  | [] => exponent
  | [d] => d :: exponent
  | d :: ds => d :: '.' :: ds ++ exponent

/-- Digits around a decimal point; the first digit stands at `place`. -/
def positional (digits : List Char) (place : Int) : List Char :=
  if place < 0 then "0.".toList ++ List.replicate (place.natAbs - 1) '0' ++ digits
  else
    let whole := place.toNat + 1
    if digits.length ≤ whole then
      digits ++ List.replicate (whole - digits.length) '0' ++ ".0".toList
    else digits.take whole ++ '.' :: digits.drop whole

/-- The least place of the first digit of a number that is written around a point. -/
def leastPlace : Int := -5

/-- The greatest such place. -/
def greatestPlace : Int := 15

/-- A floating number without a sign. -/
def magnitudeText (x : Magnitude) : List Char :=
  if x.isZero then "0.0".toList
  else
    let d := x.shortest
    let digits := (toString d.digits).toList
    let place := d.exponent + digits.length - 1
    if leastPlace ≤ place ∧ place ≤ greatestPlace then positional digits place
    else scientific digits place

/-- A floating number. -/
def doubleText (x : Double) : List Char :=
  if x.negative then '-' :: magnitudeText x.magnitude else magnitudeText x.magnitude

/-- A number as it is written. -/
def Number.text : Number → List Char
  | .int n => (toString n).toList
  | .double x => doubleText x

end Holdings.Json
