import Holdings.Issn
import Holdings.Text.Word
/-!
# Book numbers

An ISBN has nine digits and a check character, and in its longer form `978` or `979` in front.
Between two characters a hyphen or a space may stand, but not inside of the three digits in
front. Book numbers are compared in compact form. `findAll` picks them out of a text: a number
starts and ends at the edge of a word, and where both forms fit the longer one is taken.
-/

namespace Holdings.Isbn

/-- The compact form: no hyphens, no blanks, ASCII letters in capitals. -/
def normalize (s : String) : String :=
  String.ofList (Issn.squeeze s.toList)

/-- Without one hyphen or space in front. -/
def skipSeparator : List Char → List Char
  | c :: s => if c = '-' ∨ c = ' ' then s else c :: s
  | [] => []

/-- The rest after `n` digits, each with at most one separator behind it. -/
def digits? : Nat → List Char → Option (List Char)
  | 0, s => some s
  | _ + 1, [] => none
  | n + 1, c :: s => if c.isDigit then digits? n (skipSeparator s) else none

/-- Whether a word ends before this text. -/
def atWordEnd (s : List Char) : Bool :=
  s.head?.all fun c => !Text.isWord c

/-- The rest after nine digits and a check character that ends a word. -/
def short? (s : List Char) : Option (List Char) :=
  match digits? 9 s with
  | some (c :: rest) => if Issn.isCheck c && atWordEnd rest then some rest else none
  | _ => none

/-- The rest after `978` or `979` and a short number. -/
def long? : List Char → Option (List Char)
  | '9' :: '7' :: c :: s => if c = '8' ∨ c = '9' then short? (skipSeparator s) else none
  | _ => none

/-- The length of the number that starts a text. -/
def length? (s : List Char) : Option Nat :=
  ((long? s).or (short? s)).map fun rest => s.length - rest.length

/-- The numbers in a text that follows a character, or begins if there is none. -/
def findFrom (before : Option Char) : List Char → List (List Char)
  | [] => []
  | c :: s =>
    match if before.all (fun b => !Text.isWord b) then length? (c :: s) else none with
    | some n =>
      let found := (c :: s).take n
      found :: findFrom (found.getLast?.or (some c)) (s.drop (n - 1))
    | none => findFrom (some c) s
termination_by s => s.length
decreasing_by
  · exact Nat.lt_succ_of_le (by simp)
  · exact Nat.lt_succ_self _

/-- The book numbers in a text, from left to right and in compact form. Small letters count as
capitals. -/
def findAll (s : List Char) : List (List Char) :=
  (findFrom none (s.map Char.toUpper)).map Issn.squeeze

end Holdings.Isbn
