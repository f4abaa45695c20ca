import Holdings.Json.Value
import Holdings.Text.Quoted
/-!
# What can be wrong with a JSON text

A text may end too early, break the rules of the notation, or be well formed and of another
shape than the one that is asked for.
-/

namespace Holdings.Json

/-- What was found in place of something else. -/
inductive Found where
  | null
  | bool (b : Bool)
  | number (n : Number)
  | string (s : String)
  | sequence
  | map

/-- What was found, in words. -/
def Found.text : Found → String
  | .null => "null"
  | .bool b => "boolean `" ++ (if b then "true" else "false") ++ "`"
  | .number (.int n) => "integer `" ++ toString n ++ "`"
  | .number (.double x) => "floating point `" ++ String.ofList (doubleText x) ++ "`"
  | .string s => "string " ++ Text.quote s
  | .sequence => "sequence"
  | .map => "map"

/-- What is found where a value stands. -/
def Found.ofValue : Value → Found
  | .null => .null
  | .bool b => .bool b
  | .number n => .number n
  | .string s => .string s
  | .array _ => .sequence
  | .object _ => .map

/-- How a value differs from the shape that is asked for. -/
inductive ShapeFault where
  | invalidType (found : Found) (expected : String)
  | invalidInteger (n : Int) (expected : String)
  | invalidLength (n : Nat) (expected : String)
  | unknownField (name : String) (expected : List String)
  | duplicateField (name : String)
  | missingField (name : String)

/-- Names to choose from. -/
def choice : List String → String
  | [] => "there are no fields"
  | [a] => "expected `" ++ a ++ "`"
  | [a, b] => "expected `" ++ a ++ "` or `" ++ b ++ "`"
  | names => "expected one of " ++ String.intercalate ", " (names.map fun n => "`" ++ n ++ "`")

/-- The difference in words. -/
def ShapeFault.message : ShapeFault → String
  | .invalidType found expected => "invalid type: " ++ found.text ++ ", expected " ++ expected
  | .invalidInteger n expected =>
    "invalid value: integer `" ++ toString n ++ "`, expected " ++ expected
  | .invalidLength n expected =>
    "invalid length " ++ toString n ++ ", expected " ++ expected
  | .unknownField name expected => "unknown field `" ++ name ++ "`, " ++ choice expected
  | .duplicateField name => "duplicate field `" ++ name ++ "`"
  | .missingField name => "missing field `" ++ name ++ "`"

/-- What is wrong with a text. -/
inductive Fault where
  | endOfText
  | malformed
  | shape (f : ShapeFault)

end Holdings.Json
