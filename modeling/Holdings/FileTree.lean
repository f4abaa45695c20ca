import Holdings.Path
import Holdings.Text.Utf8
/-!
# File trees

The files that can be read: a snapshot of directories and files with their bytes. A path is
walked part by part, and each part but the last has to lead into a directory; two dots lead back
up. Relative paths start in a working directory. A name has at most 255 bytes, and a path 4095;
a long name only matters once the walk comes to it.
-/

namespace Holdings

/-- Why a file cannot be read. -/
inductive FileFault where
  | notFound
  | notDirectory
  | isDirectory
  | nameTooLong
  | nullInName
  | notText
deriving DecidableEq

/-- The fault in words. -/
def FileFault.message : FileFault → String
  | .notFound => "No such file or directory (os error 2)"
  | .notDirectory => "Not a directory (os error 20)"
  | .isDirectory => "Is a directory (os error 21)"
  | .nameTooLong => "File name too long (os error 36)"
  | .nullInName => "file name contained an unexpected NUL byte"
  | .notText => "stream did not contain valid UTF-8"

/-- A snapshot of files. Every place is given by the names on the way from the root. A directory
that holds a file or another directory does not have to be listed. -/
structure FileTree where
  files : List (List String × List UInt8)
  directories : List (List String)
  working : List String

namespace FileTree

/-- The number of bytes that a name may have. -/
def nameLimit : Nat := 255

/-- The number of bytes that a path may have. -/
def pathLimit : Nat := 4095

/-- What is found in a place. -/
inductive Item where
  | file (bytes : List UInt8)
  | directory

/-- What is in a place. -/
def item? (t : FileTree) (place : List String) : Option Item :=
  match t.files.lookup place with
  | some bytes => some (.file bytes)
  | none =>
    let listed := t.working :: t.directories ++ t.files.map Prod.fst
    if place = [] ∨ listed.any fun p => place.isPrefixOf p then some .directory else none

/-- Walks the parts of a path from a place. -/
def walk (t : FileTree) (place : List String) : List String → Except FileFault (List UInt8)
  | [] =>
    match t.item? place with
    | some (.file bytes) => .ok bytes
    | some .directory => .error .isDirectory
    | none => .error .notFound
  | part :: parts =>
    match t.item? place with
    | none => .error .notFound
    | some (.file _) => .error .notDirectory
    | some .directory =>
      if Path.isIdle part then t.walk place parts
      else if part = ".." then t.walk place.dropLast parts
      else if nameLimit < part.utf8ByteSize then .error .nameTooLong
      else t.walk (place ++ [part]) parts

/-- The bytes of a file. -/
def read (t : FileTree) (path : String) : Except FileFault (List UInt8) :=
  if path.isEmpty then .error .notFound
  else if path.toList.contains '\x00' then .error .nullInName
  else if pathLimit < path.utf8ByteSize then .error .nameTooLong
  else t.walk (if Path.isAbsolute path then [] else t.working) (Path.parts path)

/-- The text of a file, which has to be well formed. -/
def readText (t : FileTree) (path : String) : Except FileFault String := do
  match Text.Utf8.decode? (← t.read path) with
  | some s => .ok (String.ofList s)
  | none => .error .notText

end FileTree

end Holdings
