import Holdings.Text.Blank
import Holdings.Text.Split
import Holdings.Text.Word
/-!
# Qualified names

The name of an element may carry a qualifier in front of a colon; the local name is what comes
after the first colon. A fragment whose outermost name is qualified is read without qualifiers:
first the declarations of name spaces are taken out of it, then the qualifiers of all tags.
Both are done on the characters of the fragment, wherever they stand.
-/

namespace Holdings.Xml

/-- The name after the first colon, or all of a name without a colon. -/
def localName (name : List Char) : List Char :=
  match name.dropWhile (· ≠ ':') with
  | [] => name
  | _ :: rest => rest

/-- Whether a name carries a qualifier, be it empty. -/
def isQualified (name : List Char) : Bool := localName name ≠ name

/-! ## Taking qualifiers out -/

/-- The rest after a colon and a word, if there is one. -/
def skipWord (s : List Char) : List Char :=
  match s with
  | ':' :: w :: rest => if Text.isWord w then rest.dropWhile Text.isWord else s
  | _ => s

/-- The rest after a value in double quotes. -/
def afterValue? (s : List Char) : Option (List Char) := do
  let rest ← Text.after? ['=', '"'] s
  match rest.dropWhile (· ≠ '"') with
  | [] => none
  | _ :: rest => some rest

/-- The rest after a declaration of a name space. -/
def afterDeclaration? (s : List Char) : Option (List Char) := do
  let rest ← Text.after? "xmlns".toList s
  afterValue? (skipWord rest)

/-- The number of characters of a declaration at the start of a text, blanks before it
included. -/
def declarationLength? (s : List Char) : Option Nat :=
  (afterDeclaration? (s.dropWhile Text.isBlank)).map fun rest => s.length - rest.length

/-- A text without declarations of name spaces and the blanks before them. -/
def withoutDeclarations : List Char → List Char
  | [] => []
  | c :: s =>
    match if Text.isBlank c then declarationLength? (c :: s) else none with
    | some n => withoutDeclarations (s.drop (n - 1))
    | none => c :: withoutDeclarations s
termination_by s => s.length
decreasing_by
  · exact Nat.lt_succ_of_le (by simp)
  · exact Nat.lt_succ_self _

/-- The characters of qualifiers. -/
def isQualifierChar (c : Char) : Bool := Text.isWord c || c = '.' || c = '-'

/-- The length of a qualifier at the start of a text, its colon included. -/
def qualifierLength? (s : List Char) : Option Nat :=
  let n := (s.takeWhile isQualifierChar).length
  if 0 < n ∧ (s.drop n).head? = some ':' then some (n + 1) else none

/-- A text without the qualifiers of its tags. -/
def withoutQualifiers : List Char → List Char
  | [] => []
  | c :: s =>
    if c = '<' then
      let slash := s.takeWhile (· = '/') |>.take 1
      match qualifierLength? (s.drop slash.length) with
      | some n => c :: slash ++ withoutQualifiers (s.drop (slash.length + n))
      | none => c :: withoutQualifiers s
    else c :: withoutQualifiers s
termination_by s => s.length
decreasing_by
  all_goals exact Nat.lt_succ_of_le (by simp)

/-- A fragment without name spaces. -/
def unqualified (s : List Char) : List Char :=
  withoutQualifiers (withoutDeclarations s)

end Holdings.Xml
