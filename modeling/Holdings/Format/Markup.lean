import Holdings.Format.Reading
import Holdings.Xml.Fields
/-!
# Holdings in elements

What the markup formats have in common: the records are the elements of one name, counted from
1, and each is cut out and read by itself. An element that cannot be read is a fault of its record
only; one that cannot even be cut out ends the records.
-/

namespace Holdings.Markup

/-- The outcome of one element, from the text that was cut out: what `grant` makes of the
identifiers and licences that are read from it. -/
def outcome (name : String) (grant : Nat → Xml.Node → Option Outcome) (source : List Char)
    (index : Nat) : Outcome :=
  match (Xml.Node.ofFragment? source).bind (grant index) with
  | some o => o
  | none => .refused (.malformed name index)

/-- The outcomes of some texts, counted from a number on. -/
def outcomes (name : String) (grant : Nat → Xml.Node → Option Outcome) (first : Nat)
    (sources : List (List Char)) : List Outcome :=
  (sources.zipIdx first).map fun (s, index) => outcome name grant s index

/-- Where the records end if all elements can be cut out or not, and if the markup has no fault. -/
def ending (whole intact : Bool) : Ending :=
  if whole then (if intact then .complete else .broken) else .torn

/-- The outcomes of the elements of a name. -/
def survey (name : String) (grant : Nat → Xml.Node → Option Outcome) (bs : List UInt8) :
    Survey :=
  let d := Xml.Document.ofBytes bs
  let (es, intact) := d.elements name.toList
  let (sources, whole) := d.sources es
  ⟨outcomes name grant 1 sources, ending whole intact⟩

end Holdings.Markup
