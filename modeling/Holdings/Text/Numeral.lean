/-!
# Decimal numerals

Reading a numeral: one or more ASCII digits, with a sign where the reader allows one. The
readers with a bound refuse a number outside of it. Writing: digits filled up with zeros to a
width.
-/

namespace Holdings.Text

/-- The number that a non-empty run of ASCII digits writes; no other text is a numeral. -/
def natural? (s : List Char) : Option Nat :=
  if s ≠ [] ∧ s.all Char.isDigit then some (Nat.ofDigitChars 10 s 0) else none

/-- The number that digits write, with `+` or `-` in front of them or without a sign. -/
def integer? : List Char → Option Int
  | '+' :: s => (natural? s).map Int.ofNat
  | '-' :: s => (natural? s).map fun n => -(n : Int)
  | s => (natural? s).map Int.ofNat

/-- The integers that fit in 64 bits with a sign. -/
def isInt64 (n : Int) : Bool :=
  -9223372036854775808 ≤ n && n ≤ 9223372036854775807

theorem isInt64_iff {n : Int} :
    isInt64 n = true ↔ -9223372036854775808 ≤ n ∧ n ≤ 9223372036854775807 := by
  rw [isInt64, Bool.and_eq_true, decide_eq_true_eq, decide_eq_true_eq]

/-- The signed numeral of a 64-bit number. -/
def int64? (s : List Char) : Option Int :=
  (integer? s).filter isInt64

/-- The numeral of an unsigned 32-bit number; a `+` may stand in front. -/
def word32? (s : List Char) : Option Nat :=
  let digits := match s with
    | '+' :: rest => rest
    | s => s
  (natural? digits).filter (· < UInt32.size)

theorem natural?_eq_none {s : List Char} (h : ∀ c ∈ s, c.isDigit = false) :
    natural? s = none := by
  cases s with
  | nil => rfl
  | cons c s => simp [natural?, h c List.mem_cons_self]

theorem integer?_eq_none {s : List Char} (h : ∀ c ∈ s, c.isDigit = false) :
    integer? s = none := by
  unfold integer?
  split
  · rw [natural?_eq_none fun c hc => h c (List.mem_cons_of_mem _ hc)]; rfl
  · rw [natural?_eq_none fun c hc => h c (List.mem_cons_of_mem _ hc)]; rfl
  · rw [natural?_eq_none h]; rfl

theorem int64?_eq_none {s : List Char} (h : ∀ c ∈ s, c.isDigit = false) : int64? s = none := by
  rw [int64?, integer?_eq_none h]; rfl

/-- The value of a hexadecimal digit. -/
def hexValue? (c : Char) : Option Nat :=
  if c.isDigit then some (c.toNat - '0'.toNat)
  else if 'a' ≤ c ∧ c ≤ 'f' then some (c.toNat - 'a'.toNat + 10)
  else if 'A' ≤ c ∧ c ≤ 'F' then some (c.toNat - 'A'.toNat + 10)
  else none

/-- The digits of a number with zeros in front, up to `width` characters in all. -/
def padded (width n : Nat) : List Char :=
  let digits := (toString n).toList
  List.replicate (width - digits.length) '0' ++ digits

/-- The digits of an integer with zeros in front, up to `width` characters in all; the minus
sign of a negative one counts as a character. -/
def paddedInt (width : Nat) : Int → List Char
  | .ofNat n => padded width n
  | .negSucc n => '-' :: padded (width - 1) (n + 1)

end Holdings.Text
