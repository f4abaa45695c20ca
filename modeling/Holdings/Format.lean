import Holdings.Format.Ezb
import Holdings.Format.Google
import Holdings.Format.Kbart
/-!
# Holdings formats

The formats in which holdings come, in the order in which they are tried, and the reading of a
document in a format under a policy.
-/

namespace Holdings

/-- A format of holdings documents. -/
inductive Format where
  | kbart
  | ezb
  | google
deriving DecidableEq

namespace Format

/-- All formats, in the order in which they are tried. -/
def all : List Format := [.kbart, .ezb, .google]

/-- The name of a format. -/
def name : Format → String
  | .kbart => "KBART"
  | .ezb => "EZB XML"
  | .google => "Google XML"

/-- The outcomes of the records in a document. -/
def survey : Format → List UInt8 → Survey
  | .kbart => Kbart.survey
  | .ezb => Ezb.survey
  | .google => Google.survey

/-- The reading of a document. -/
def parse (f : Format) (policy : SkipPolicy) (bs : List UInt8) :
    Except DocumentFault Reading :=
  (f.survey bs).read policy

end Format

end Holdings
