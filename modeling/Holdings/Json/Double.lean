/-!
# Binary floating numbers

Numbers of the form m · 2^e with 53 binary digits, as machines hold them. A ratio is brought to
the nearest such number, and of two that are equally near to the one with the even last digit;
a ratio that is too large is brought to none. Products and quotients are exact ratios brought to
a number in this way.

A decimal is read in steps that each round: its digits as far as they fit into 64 bits, and then
a product with a power of ten, or a quotient by one.
-/

namespace Holdings

/-- A number m · 2^e without a sign: m has at most 53 binary digits and e is from -1074 to 971.
Unless e is the least, m has all 53 digits. -/
structure Magnitude where
  mantissa : Nat
  exponent : Int
deriving DecidableEq, Inhabited

/-- A magnitude with a sign; there are two zeros. -/
structure Double where
  negative : Bool
  magnitude : Magnitude
deriving DecidableEq, Inhabited

namespace Magnitude

/-- The least exponent. -/
def leastExponent : Int := -1074

/-- The greatest exponent. -/
def greatestExponent : Int := 971

/-- The least mantissa with all 53 binary digits. -/
def leastFull : Nat := 4503599627370496

/-- The number 0. -/
def zero : Magnitude := ⟨0, leastExponent⟩

/-- Whether a number is 0. -/
def isZero (x : Magnitude) : Bool := x.mantissa = 0

/-- The quotient brought to the nearest whole number, a half to the even neighbour. -/
def roundDiv (n d : Nat) : Nat :=
  let q := n / d
  let r := n % d
  if 2 * r < d then q else if d < 2 * r then q + 1 else q + q % 2

/-- The numerator of n · 2^(-e) / d. -/
def scaledNumerator (n : Nat) (e : Int) : Nat := n <<< (-e).toNat

/-- The denominator of n · 2^(-e) / d. -/
def scaledDenominator (d : Nat) (e : Int) : Nat := d <<< e.toNat

/-- The exponent with which a ratio has 53 binary digits before its point. The lengths of
numerator and denominator leave a choice of two. -/
def exponentOf (n d : Nat) : Int :=
  let e : Int := (n.log2 : Int) - d.log2 - 52
  if scaledNumerator n e / scaledDenominator d e < leastFull then e - 1 else e

/-- The number nearest to n / d. -/
def ofRatio? (n d : Nat) : Option Magnitude :=
  if n = 0 then some zero
  else
    let e := max (exponentOf n d) leastExponent
    let m := roundDiv (scaledNumerator n e) (scaledDenominator d e)
    let x := if m = 2 * leastFull then ⟨leastFull, e + 1⟩ else ⟨m, e⟩
    if x.exponent ≤ greatestExponent then some x else none

/-- The number nearest to n · 2^e / d. -/
def ofScaled? (n : Nat) (e : Int) (d : Nat) : Option Magnitude :=
  ofRatio? (n <<< e.toNat) (d <<< (-e).toNat)

/-- The number nearest to the product. -/
def mul? (x y : Magnitude) : Option Magnitude :=
  ofScaled? (x.mantissa * y.mantissa) (x.exponent + y.exponent) 1

/-- The number nearest to the quotient. -/
def div? (x y : Magnitude) : Option Magnitude :=
  ofScaled? x.mantissa (x.exponent - y.exponent) y.mantissa

/-- The greatest power of ten that is used as a factor. -/
def greatestPower : Nat := 308

/-- The number nearest to 10^k. -/
def powerOfTen? (k : Nat) : Option Magnitude := ofRatio? (Nat.pow 10 k) 1

/-- Multiplies by 10^e in steps; a large negative power takes more than one quotient. -/
def timesPower? (x : Magnitude) (e : Int) : Option Magnitude :=
  if e.natAbs ≤ greatestPower then do
    let p ← powerOfTen? e.natAbs
    if 0 ≤ e then x.mul? p else x.div? p
  else if x.isZero then some x
  else if 0 ≤ e then none
  else do
    let p ← powerOfTen? greatestPower
    let y ← x.div? p
    y.timesPower? (e + greatestPower)
termination_by e.natAbs
decreasing_by simp only [greatestPower] at *; omega

/-- The number that is read for n · 10^e. -/
def ofDecimal? (n : Nat) (e : Int) : Option Magnitude := do
  let x ← ofRatio? n 1
  x.timesPower? e

end Magnitude

end Holdings
