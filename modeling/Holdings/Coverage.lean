import Holdings.Licence
/-!
# Coverage

Whether a licence covers a signature at an instant. The bounds of the window are asked first,
then the moving wall, and the first objection counts. At a bound the years are compared, then
the volumes, then the issues: a later component only refines the comparison if the one before
it is equal or says nothing. A year says nothing if the bound has none; volumes and issues say
nothing if either text carries no number.
-/

namespace Holdings

/-- Why a licence does not cover a signature. -/
inductive Violation where
  | yearBefore
  | volumeBefore
  | issueBefore
  | yearAfter
  | volumeAfter
  | issueAfter
  | movingWall
deriving DecidableEq

namespace Violation

/-- The reason in words. -/
def message : Violation → String
  | .yearBefore => "year before coverage interval"
  | .volumeBefore => "volume before coverage interval"
  | .issueBefore => "issue before coverage interval"
  | .yearAfter => "year after coverage interval"
  | .volumeAfter => "volume after coverage interval"
  | .issueAfter => "issue after coverage interval"
  | .movingWall => "moving wall"

end Violation

namespace Coverage

/-- How the years of target and bound compare, if the bound has one. -/
def compareYears (target bound : Signature) : Option Ordering :=
  if bound.date.isSet then some (target.date.compareYears bound.date) else none

/-- How two numbers compare, if both are there. -/
def compareOrdinals : Option Int → Option Int → Option Ordering
  | some a, some b => some (compare a b)
  | _, _ => none

/-- One comparison of a bound: on the wrong side is a violation, on the right side settles the
bound, and all else leaves it to what follows. -/
def refine (wrong : Ordering) (v : Violation) (next : Except Violation Unit) :
    Option Ordering → Except Violation Unit
  | none | some .eq => next
  | some o => if o = wrong then .error v else .ok ()

/-- The three comparisons with a bound. -/
def checkBound (wrong : Ordering) (year volume issue : Violation) (bound target : Signature) :
    Except Violation Unit :=
  refine wrong year
    (refine wrong volume
      (refine wrong issue (.ok ())
        (compareOrdinals target.issueOrdinal? bound.issueOrdinal?))
      (compareOrdinals target.volumeOrdinal? bound.volumeOrdinal?))
    (compareYears target bound)

/-- Nothing before the first signature is covered. -/
def checkFirst (first target : Signature) : Except Violation Unit :=
  checkBound .lt .yearBefore .volumeBefore .issueBefore first target

/-- Nothing after the last signature is covered. -/
def checkLast (last target : Signature) : Except Violation Unit :=
  checkBound .gt .yearAfter .volumeAfter .issueAfter last target

/-- How a publication and a wall compare at a grain: as instants, or by the month or the year
that they fall into. -/
def compareAt : Grain → Instant → Instant → Ordering
  | .day, published, wall => published.compare wall
  | .month, published, wall => compare published.month wall.month
  | .year, published, wall => compare published.year wall.year

/-- Whether the wall keeps a publication back. If access begins at the wall, that is all before
it. If access ends there, it is all after the wall, and a month or year that holds the wall
counts as after it. -/
def isWithheld (e : Embargo) (published wall : Instant) : Bool :=
  let o := compareAt e.grain published wall
  if e.disallowsEarlier then o = .lt
  else if e.grain = .day then o = .gt
  else o ≠ .lt

/-- The moving wall. Without a day of publication, or if the wall cannot be placed, nothing
gets past it. -/
def checkWall (l : Licence) (target : Signature) (now : Instant) : Except Violation Unit :=
  if l.hasWall then
    match l.wall? now, target.date.firstDay? with
    | some wall, some day =>
      if isWithheld l.embargo (Instant.startOf day) wall then .error .movingWall else .ok ()
    | _, _ => .error .movingWall
  else .ok ()

end Coverage

/-- Whether a licence covers a signature now, and if not, why. -/
def Licence.covers (l : Licence) (target : Signature) (now : Instant) :
    Except Violation Unit := do
  Coverage.checkFirst l.first target
  Coverage.checkLast l.last target
  Coverage.checkWall l target now

end Holdings
