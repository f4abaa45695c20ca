import Holdings.Json.Number
import Holdings.Keyed
/-!
# JSON values

Values and how they are written: on one line, without blanks, the members of an object in their
order. In a string the quote, the backslash and the control characters are escaped, and all else
stands for itself.
-/

namespace Holdings.Json

/-- A value. The members of an object have different names, in the order in which the names came
first. -/
inductive Value where
  | null
  | bool (b : Bool)
  | number (n : Number)
  | string (s : String)
  | array (items : List Value)
  | object (members : List (String × Value))

instance : Inhabited Value := ⟨.null⟩

/-- The hexadecimal digits of a control character, four of them. -/
def controlDigits (c : Char) : List Char :=
  let digits := Nat.toDigits 16 c.toNat
  List.replicate (4 - digits.length) '0' ++ digits

/-- A character inside of a string. -/
def escapeChar (c : Char) : List Char :=
  if c = '"' then ['\\', '"']
  else if c = '\\' then ['\\', '\\']
  else if c = '\x08' then ['\\', 'b']
  else if c = '\t' then ['\\', 't']
  else if c = '\n' then ['\\', 'n']
  else if c = '\x0c' then ['\\', 'f']
  else if c = '\r' then ['\\', 'r']
  else if c.toNat < 0x20 then '\\' :: 'u' :: controlDigits c
  else [c]

/-- A string in quotes. -/
def stringText (s : String) : List Char :=
  '"' :: s.toList.flatMap escapeChar ++ ['"']

/-- Texts with commas between them. -/
def commas : List (List Char) → List Char
  | [] => []
  | [t] => t
  | t :: ts => t ++ ',' :: commas ts

mutual
/-- A value as it is written. -/
def Value.chars : Value → List Char
  | .null => "null".toList
  | .bool b => (if b then "true" else "false").toList
  | .number n => n.text
  | .string s => stringText s
  | .array items => '[' :: commas (itemChars items) ++ [']']
  | .object members => '{' :: commas (memberChars members) ++ ['}']
/-- The items of an array as they are written. -/
def itemChars : List Value → List (List Char)
  | [] => []
  | v :: vs => v.chars :: itemChars vs
/-- The members of an object as they are written. -/
def memberChars : List (String × Value) → List (List Char)
  | [] => []
  | (name, v) :: ms => (stringText name ++ ':' :: v.chars) :: memberChars ms
end

/-- A value as it is written. -/
def Value.text (v : Value) : String := String.ofList v.chars

/-- An array of strings. -/
def Value.ofTexts (ts : List String) : Value := .array (ts.map .string)

end Holdings.Json
