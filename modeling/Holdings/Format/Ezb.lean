import Holdings.Format.Embargo
import Holdings.Format.Markup
/-!
# EZB holdings

Elements `holding`. The identifiers stand in `EZBIssns`, electronic editions before printed
ones, and each `entitlement` grants a licence from its `begin` to its `end`. The delay of an
entitlement is that of its beginning, or if this is blank that of its end.
-/

namespace Holdings.Ezb

open Xml

/-- One end of an entitlement, as written. -/
structure Boundary where
  year : String
  volume : String
  issue : String
  delay : String

/-- The boundary that is left out. -/
def Boundary.missing : Boundary := ⟨"", "", "", ""⟩

/-- The signature of a boundary. -/
def Boundary.signature (b : Boundary) : Signature := .parse b.year b.volume b.issue

/-- The boundary in an element. -/
def boundary? (n : Node) : Option Boundary := do
  let fs ← n.fields? ["year", "volume", "issue", "delay"] []
  some ⟨← textOf? fs "year", ← textOf? fs "volume", ← textOf? fs "issue", ← textOf? fs "delay"⟩

/-- A span of coverage, as written. -/
structure Entitlement where
  first : Boundary
  last : Boundary

/-- The entitlement in an element. -/
def entitlement? (n : Node) : Option Entitlement := do
  let fs ← n.fields? ["begin", "end"] []
  some ⟨← childOf? fs "begin" boundary? .missing, ← childOf? fs "end" boundary? .missing⟩

/-- The delay that counts. -/
def Entitlement.delay (e : Entitlement) : String :=
  if (Text.trimmed e.first.delay).isEmpty then e.last.delay else e.first.delay

/-- The licence that an entitlement grants. -/
def Entitlement.licence (e : Entitlement) : Except RecordFault Licence :=
  (Embargo.readDelay e.delay).map fun embargo => ⟨e.first.signature, e.last.signature, embargo⟩

/-- The identifiers in an element, electronic editions first. -/
def identifiers? (n : Node) : Option (List String) := do
  let fs ← n.fields? [] ["p-issn", "e-issn"]
  let print ← listOf? fs "p-issn" Node.content?
  let electronic ← listOf? fs "e-issn" Node.content?
  some ((electronic ++ print).map Issn.normalize)

/-- The entitlements in an element. -/
def entitlements? (n : Node) : Option (List Entitlement) := do
  let fs ← n.fields? [] ["entitlement"]
  listOf? fs "entitlement" entitlement?

/-- What a holding grants. -/
def holding? (index : Nat) (n : Node) : Option Outcome := do
  let fs ← n.fields? ["EZBIssns", "entitlements"] []
  let ids ← childOf? fs "EZBIssns" identifiers? []
  let es ← childOf? fs "entitlements" entitlements? []
  some (.ofRecord index ids (es.map Entitlement.licence))

/-- The outcomes of the holdings in a document. -/
def survey (bs : List UInt8) : Survey := Markup.survey "holding" holding? bs

end Holdings.Ezb
