import Holdings.Format.Fault
/-!
# Policies

Which faults of single records may be skipped. A fault that may not be skipped ends the reading
of the document.
-/

namespace Holdings

/-- The kinds of record faults that may be skipped. -/
structure SkipPolicy where
  missingIdentifiers : Bool
  incompleteLines : Bool
  invalidEmbargo : Bool
  malformedRecords : Bool
deriving DecidableEq

namespace SkipPolicy

/-- Every faulty record may be skipped. -/
def lenient : SkipPolicy := ⟨true, true, true, true⟩

/-- No faulty record may be skipped. -/
def strict : SkipPolicy := ⟨false, false, false, false⟩

instance : Inhabited SkipPolicy := ⟨lenient⟩

/-- Whether a fault may be skipped. -/
def allows (p : SkipPolicy) : RecordFault → Bool
  | .missingIdentifiers _ => p.missingIdentifiers
  | .incompleteLine .. => p.incompleteLines
  | .invalidEmbargo _ => p.invalidEmbargo
  | .malformed .. => p.malformedRecords

end SkipPolicy

end Holdings
