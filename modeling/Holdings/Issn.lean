import Holdings.Text.Blank
/-!
# Serial numbers

An ISSN is seven digits and a check character, which is a digit or `X`. Its canonical form has
a hyphen in the middle. Texts bring it with or without hyphens and blanks and with a small
`x`; `normalize` sends all these to the canonical form and only trims every other text, so that
equal serials have equal keys. `findAll` picks the numbers in canonical form out of a text.
-/

namespace Holdings

/-- A check character. -/
def Issn.isCheck (c : Char) : Bool := c.isDigit || c = 'X'

/-- Seven digits and a check character. -/
def Issn.isCompact (s : List Char) : Bool :=
  s.length = 8 && (s.take 7).all Char.isDigit && (s.drop 7).all Issn.isCheck

/-- A serial number: its eight characters without the hyphen. -/
structure Issn where
  compact : List Char
  wellFormed : Issn.isCompact compact = true
deriving DecidableEq

namespace Issn

/-- A text without hyphens and blanks, its ASCII letters in capitals. -/
def squeeze (s : List Char) : List Char :=
  (s.filter fun c => c ≠ '-' && !Text.isBlank c).map Char.toUpper

/-- The serial number that a text writes, with hyphens and blanks anywhere. -/
def parse? (s : String) : Option Issn :=
  if h : isCompact (squeeze s.toList) = true then some ⟨squeeze s.toList, h⟩ else none

/-- Two groups of four characters with a hyphen between them. -/
def canonical (i : Issn) : List Char :=
  i.compact.take 4 ++ '-' :: i.compact.drop 4

/-- The canonical form as a string. -/
def text (i : Issn) : String := String.ofList i.canonical

/-! ## The check character -/

/-- The value of a check character or digit. -/
def checkValue (c : Char) : Nat :=
  if c = 'X' then 10 else c.toNat - '0'.toNat

/-- The digits weighted from eight downwards. -/
def weightedSum (digits : List Char) : Nat :=
  (digits.zip [8, 7, 6, 5, 4, 3, 2]).foldr (fun (c, w) sum => checkValue c * w + sum) 0

/-- The value that the check character of seven digits should have. -/
def expectedCheck (digits : List Char) : Nat :=
  (11 - weightedSum digits % 11) % 11

/-- Whether the check character is the one that the seven digits ask for. -/
def hasValidCheck (i : Issn) : Bool :=
  (i.compact.drop 7).map checkValue = [expectedCheck (i.compact.take 7)]

/-! ## Identifiers in general -/

/-- The key of an identifier: the canonical form of a serial number, and any other text
trimmed. -/
def normalize (s : String) : String :=
  match parse? s with
  | some i => i.text
  | none => Text.trimmed s

/-- Four digits, a hyphen, three digits and a check character. -/
def isCanonical (s : List Char) : Bool :=
  s.length = 9 && (s.take 4).all Char.isDigit && (s.drop 4).take 1 = ['-'] &&
    ((s.drop 5).take 3).all Char.isDigit && (s.drop 8).all isCheck

/-- The serial numbers in canonical form that stand in a text, from left to right; the search
for the next one starts after the one before. -/
def findAll : List Char → List (List Char)
  | [] => []
  | c :: s =>
    if isCanonical ((c :: s).take 9) then (c :: s).take 9 :: findAll (s.drop 8)
    else findAll s
termination_by s => s.length
decreasing_by
  · exact Nat.lt_succ_of_le (by simp)
  · exact Nat.lt_succ_self _

end Issn

end Holdings
