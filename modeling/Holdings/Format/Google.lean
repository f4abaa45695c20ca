import Holdings.Format.Embargo
import Holdings.Format.Markup
/-!
# Google Scholar holdings

Elements `item`. Each `issn` is an identifier, and each `coverage` grants a licence `from` one
signature `to` another. The embargo counts the latest days that are not available.
-/

namespace Holdings.Google

open Xml

/-- The signature in an element. -/
def boundary? (n : Node) : Option Signature := do
  let fs ← n.fields? ["year", "volume", "issue"] []
  some (.parse (← textOf? fs "year") (← textOf? fs "volume") (← textOf? fs "issue"))

/-- The days not available, as written. -/
def days? (n : Node) : Option String := do
  let fs ← n.fields? ["days_not_available"] []
  textOf? fs "days_not_available"

/-- The signature of a boundary that is left out. -/
def missingBoundary : Signature := .parse "" "" ""

/-- The licence that a window grants with an embargo as written. -/
def licence (first last : Signature) (days : String) : Except RecordFault Licence :=
  (Embargo.readDays days).map fun embargo => ⟨first, last, embargo⟩

/-- The licence that a coverage grants. -/
def coverage? (n : Node) : Option (Except RecordFault Licence) := do
  let fs ← n.fields? ["from", "to", "embargo"] []
  let first ← childOf? fs "from" boundary? missingBoundary
  let last ← childOf? fs "to" boundary? missingBoundary
  let days ← childOf? fs "embargo" days? ""
  some (licence first last days)

/-- What an item grants. -/
def item? (index : Nat) (n : Node) : Option Outcome := do
  let fs ← n.fields? [] ["issn", "coverage"]
  let ids ← listOf? fs "issn" Node.content?
  let licences ← listOf? fs "coverage" coverage?
  some (.ofRecord index (ids.map Issn.normalize) licences)

/-- The outcomes of the items in a document. -/
def survey (bs : List UInt8) : Survey := Markup.survey "item" item? bs

end Holdings.Google
