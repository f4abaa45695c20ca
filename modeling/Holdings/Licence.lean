import Holdings.Embargo
import Holdings.Instant
import Holdings.Signature
/-!
# Licences

A licence covers the part of one serial from its first to its last signature, as far as its
embargo allows. A signature that is unset leaves its side of the window open. Nothing says that
the first signature comes before the last.
-/

namespace Holdings

/-- A window of coverage and its embargo. -/
structure Licence where
  first : Signature
  last : Signature
  embargo : Embargo
deriving DecidableEq, Inhabited

namespace Licence

/-- Whether the embargo sets up a moving wall. -/
def hasWall (l : Licence) : Bool := l.embargo.seconds < 0

/-- Where the moving wall stands now, if there is one and the calendar reaches that far. -/
def wall? (l : Licence) (now : Instant) : Option Instant :=
  if l.hasWall then now.plus? l.embargo.seconds else none

end Licence

end Holdings
