import Holdings.Text.Split
/-!
# Paths

File names with slashes. A path that starts with a slash is absolute. Two paths are the same if
they have the same components: empty parts and single dots do not count, save a dot with which
a relative path starts.
-/

namespace Holdings.Path

/-- Whether a path starts at the root. -/
def isAbsolute (p : String) : Bool := p.toList.head? = some '/'

/-- A path below another one. An absolute path stays as it is. -/
def join (base p : String) : String :=
  if isAbsolute p || base.isEmpty then p
  else if base.toList.getLast? = some '/' then base ++ p
  else base ++ "/" ++ p

/-- The parts of a path between slashes. -/
def parts (p : String) : List String :=
  (Text.split '/' p.toList).map String.ofList

/-- Whether a part says nothing. -/
def isIdle (part : String) : Bool := part = "" || part = "."

/-- What identifies a path: whether it is absolute, whether it starts with a dot, and the parts
that count. -/
structure Components where
  absolute : Bool
  dotted : Bool
  names : List String
deriving DecidableEq

/-- The components of a path. -/
def components (p : String) : Components where
  absolute := isAbsolute p
  dotted := (parts p).head? = some "."
  names := (parts p).filter fun part => !isIdle part

/-- A path in reverse without slashes and idle dots at its end. The slash of the root stays. -/
def trimEnd : List Char → List Char
  | [] => []
  | ['/'] => ['/']
  | '/' :: s => trimEnd s
  | ['.', '/'] => ['/']
  | '.' :: '/' :: s => trimEnd s
  | s => s

/-- The path without its last component; the root and the empty path have none. -/
def parent? (p : String) : Option String :=
  match trimEnd p.toList.reverse with
  | [] => none
  | ['/'] => none
  | s => some (String.ofList (trimEnd (s.dropWhile (· ≠ '/'))).reverse)

/-- The scheme of addresses of local files. -/
def fileScheme : String := "file://"

/-- The path that a name in a configuration stands for: without the scheme of local files, and
below the base directory if there is one. -/
def resolve (base : Option String) (name : String) : String :=
  let p := ((Text.after? fileScheme.toList name.toList).map String.ofList).getD name
  match base with
  | some b => join b p
  | none => p

end Holdings.Path
