import Holdings.FileTree
import Holdings.Json.Fault
/-!
# What can be wrong with a node of a filter

A node that is not an object with one member, or whose setting has not the shape that its kind
asks for.
-/

namespace Holdings

open Json (ShapeFault Value)

/-- What is wrong with a node. -/
inductive NodeFault where
  | notObject (v : Value)
  | noMember
  | severalMembers (names : List String)
  | notSettings (kind : String) (v : Value)
  | notStrings (kind : String) (f : ShapeFault)
  | notNodes (kind : String) (v : Value)
  | notOneNode (count : Nat)
  | shape (kind : String) (f : ShapeFault)
  | unreadable (kind path : String) (f : FileFault)
  | unsupportedUrl (url : String)
  | noSource
  | refused (kind : String) (v : Value)

/-- The fault in words. -/
def NodeFault.message : NodeFault → String
  | .notObject v => "filter node must be an object, got " ++ v.text
  | .noMember => "empty filter node"
  | .severalMembers names =>
    "filter node has " ++ toString names.length ++ " keys (" ++
      String.intercalate ", " names ++ "), expected exactly one"
  | .notSettings kind v => kind ++ ": expected an object, got " ++ v.text
  | .notStrings kind f => kind ++ ": expected an array of strings: " ++ f.message
  | .notNodes kind v => kind ++ ": expected an array of filters, got " ++ v.text
  | .notOneNode count => "not: expected exactly one filter, got " ++ toString count
  | .shape kind f => kind ++ ": " ++ f.message
  | .unreadable kind path f => kind ++ ": cannot read " ++ path ++ ": " ++ f.message
  | .unsupportedUrl url =>
    "holdings: unsupported url " ++ url ++ ", only file:// urls are supported"
  | .noSource => "holdings: expected \"file\", \"files\" or \"urls\""
  | .refused kind v => kind ++ ": " ++ v.text

end Holdings
