import Holdings.Filter.Fault
import Holdings.Format.Detect
/-!
# Faults

Everything that can go wrong in this library, with its words. A fault of a filter node may name
the institution that the filter belongs to; a fault in a holdings file names the file.
-/

namespace Holdings

/-- What went wrong. -/
inductive Fault where
  | file (f : FileFault)
  | json (f : Json.Fault)
  | document (f : DocumentFault)
  | undetected (rs : Rejections)
  | invalidIssn (text : String)
  | unknownFilter (name : String)
  | invalidFilter (owner : Option String) (f : NodeFault)
  | notConfiguration
  | holdings (path : String) (cause : Fault)

namespace Fault

/-- What is wrong with a JSON text, in words. -/
def jsonMessage : Json.Fault → String
  | .endOfText => "the text ends too early"
  | .malformed => "the text is not well formed"
  | .shape f => f.message

/-- What went wrong, in words. -/
def message : Fault → String
  | .file f => "IO error: " ++ f.message
  | .json f => "JSON error: " ++ jsonMessage f
  | .document f => f.message
  | .undetected rs => rs.message
  | .invalidIssn text => "invalid ISSN: " ++ Text.quote text
  | .unknownFilter name => "unknown filter: " ++ name
  | .invalidFilter none f => "invalid filter: " ++ f.message
  | .invalidFilter (some owner) f => "invalid filter: " ++ owner ++ ": " ++ f.message
  | .notConfiguration =>
    "invalid filter: tagger configuration must be an object of institutions"
  | .holdings path cause => "holdings file " ++ path ++ ": " ++ cause.message

/-- Says whose filter a node belongs to. Faults of other kinds say nothing of it. -/
def ownedBy (owner : String) : Fault → Fault
  | .invalidFilter _ f => .invalidFilter (some owner) f
  | f => f

end Fault

/-- Whether a fault may be skipped. Only faults of single records may. -/
def SkipPolicy.allowsFault (p : SkipPolicy) : Fault → Bool
  | .document (.record f) => p.allows f
  | _ => false

end Holdings
