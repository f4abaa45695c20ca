import Holdings.Format.Policy
import Holdings.Path
/-!
# Configuration

What holds for all files and filters that one configuration names.
-/

namespace Holdings

/-- The policy for holdings documents, the directory of relative paths, and whether filters on
holdings collect their reasons unless they say otherwise. -/
structure Config where
  policy : SkipPolicy
  base : Option String
  verbose : Bool
deriving DecidableEq

namespace Config

/-- The configuration in which nothing is set. -/
def standard : Config := ⟨.lenient, none, false⟩

instance : Inhabited Config := ⟨standard⟩

/-- The path that a name stands for. -/
def resolve (c : Config) (name : String) : String := Path.resolve c.base name

end Config

end Holdings
