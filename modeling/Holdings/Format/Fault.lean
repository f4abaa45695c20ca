import Holdings.Text.Quoted
/-!
# What can be wrong with a holdings document

A fault of one record leaves the other records alone, and a policy says whether it may be
skipped. A fault of the markup makes everything after it unreadable. An element that cannot be cut
out of its document at all is no fault that whoever reads the document could live with.
-/

namespace Holdings

/-- What is wrong with one record. Rows are counted by lines, elements by their place among
the elements of their name. -/
inductive RecordFault where
  | incompleteLine (line columns : Nat)
  | missingIdentifiers (record : Nat)
  | invalidEmbargo (text : String)
  | malformed (element : String) (index : Nat)
deriving DecidableEq

/-- The fault in words. -/
def RecordFault.message : RecordFault → String
  | .incompleteLine line columns =>
    "incomplete KBART line " ++ toString line ++ ": " ++ toString columns ++ " columns"
  | .missingIdentifiers record => "missing identifiers in record " ++ toString record
  | .invalidEmbargo text => "invalid embargo: " ++ Text.quote text
  | .malformed element index =>
    "malformed holdings record: " ++ element ++ " " ++ toString index

/-- What ends the reading of a document: the fault of a record or of the markup, or an element that
would be cut inside of a character. With the last of them everything ends that waits for the
reading, so no policy allows it, and no other format is tried. -/
inductive DocumentFault where
  | record (fault : RecordFault)
  | markup
  | torn
deriving DecidableEq

/-- The fault in words. -/
def DocumentFault.message : DocumentFault → String
  | .record fault => fault.message
  | .markup => "XML error"
  | .torn => "element cut inside of a character"

end Holdings
