import Holdings.Text.Numeral
/-!
# References

Characters that a text names instead of showing them: five names, or the number of the
character in decimal or hexadecimal digits, between `&` and `;`. A text with any other
reference, or with an ampersand that starts none, cannot be read.
-/

namespace Holdings.Xml

/-- The characters that have names. -/
def namedCharacter? (name : List Char) : Option Char :=
  if name = "lt".toList then some '<'
  else if name = "gt".toList then some '>'
  else if name = "amp".toList then some '&'
  else if name = "apos".toList then some '\''
  else if name = "quot".toList then some '"'
  else none

/-- The value of hexadecimal digits after those that make `n`. -/
def hexadecimal? (n : Nat) : List Char → Option Nat
  | [] => some n
  | c :: s => do
    let d ← Text.hexValue? c
    hexadecimal? (16 * n + d) s

/-- The number in a reference: up to six hexadecimal digits after an `x`, or up to seven decimal
ones. -/
def characterNumber? : List Char → Option Nat
  | 'x' :: digits => if digits.length ≤ 6 then hexadecimal? 0 digits else none
  | digits => if digits.length ≤ 7 then Text.natural? digits else none

/-- The character with a number; there is none with number 0. -/
def numberedCharacter? (n : Nat) : Option Char :=
  if h : n.isValidChar then if n = 0 then none else some (Char.ofNatAux n h) else none

/-- The character that a reference names, by what stands between `&` and `;`. -/
def referenced? : List Char → Option Char
  | '#' :: number => (characterNumber? number).bind numberedCharacter?
  | name => namedCharacter? name

/-- A text with the characters in the places of their references. -/
def resolve? : List Char → Option (List Char)
  | [] => some []
  | c :: s =>
    if c = '&' then
      let name := s.takeWhile fun c => c ≠ '&' && c ≠ ';'
      match s.drop name.length with
      | ';' :: _ => do
        let r ← referenced? name
        let rest ← resolve? (s.drop (name.length + 1))
        some (r :: rest)
      | _ => none
    else (resolve? s).map (c :: ·)
termination_by s => s.length
decreasing_by
  · exact Nat.lt_succ_of_le (by simp)
  · exact Nat.lt_succ_self _

end Holdings.Xml
