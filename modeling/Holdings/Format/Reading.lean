import Holdings.Distinct
import Holdings.Format.Policy
import Holdings.Registry
/-!
# Reading records into a registry

Every format brings a document into one form, a survey: the outcomes of its records in order,
and where they come to an end. Reading a survey under a policy adds the licences to a registry,
counts what it skips, and stops at the first fault that the policy does not allow. Where the records
end before the document does counts only after all of them.
-/

namespace Holdings

/-- What one record says: nothing but a fault, or licences that hold for all identifiers of the
record, each of which may be at fault by itself. -/
inductive Outcome where
  | refused (fault : RecordFault)
  | granted (ids : List String) (licences : List (Except RecordFault Licence))

/-- Where the records of a document come to an end: with the document, before a fault of the
markup, or before an element that would be cut inside of a character. -/
inductive Ending where
  | complete
  | broken
  | torn
deriving DecidableEq

/-- The outcomes of all records up to where they end. -/
structure Survey where
  outcomes : List Outcome
  ending : Ending

/-- A record that grants licences, if it has identifiers to file them under. -/
def Outcome.ofRecord (record : Nat) (ids : List String)
    (licences : List (Except RecordFault Licence)) : Outcome :=
  match distinct ids with
  | [] => .refused (.missingIdentifiers record)
  | ids => .granted ids licences

/-- What was counted during one reading. An entry is a licence filed under one identifier. -/
structure Report where
  records : Nat
  entries : Nat
  missingIdentifiers : Nat
  incompleteLines : Nat
  invalidEmbargo : Nat
  malformedRecords : Nat
deriving DecidableEq

namespace Report

/-- The report of a reading that has seen nothing. -/
def empty : Report := ⟨0, 0, 0, 0, 0, 0⟩

/-- The number of faults that were skipped. -/
def skipped (r : Report) : Nat :=
  r.missingIdentifiers + r.incompleteLines + r.invalidEmbargo + r.malformedRecords

/-- Counts a fault that is skipped. -/
def count (r : Report) : RecordFault → Report
  | .missingIdentifiers _ => { r with missingIdentifiers := r.missingIdentifiers + 1 }
  | .incompleteLine .. => { r with incompleteLines := r.incompleteLines + 1 }
  | .invalidEmbargo _ => { r with invalidEmbargo := r.invalidEmbargo + 1 }
  | .malformed .. => { r with malformedRecords := r.malformedRecords + 1 }

end Report

/-- A registry and the report on how it was read. -/
structure Reading where
  registry : Registry
  report : Report
deriving DecidableEq

namespace Reading

/-- Nothing read yet. -/
def empty : Reading := ⟨.empty, .empty⟩

instance : Inhabited Reading := ⟨empty⟩

/-- Skips a fault if the policy allows it. -/
def skip (policy : SkipPolicy) (r : Reading) (fault : RecordFault) :
    Except RecordFault Reading :=
  if policy.allows fault then .ok { r with report := r.report.count fault } else .error fault

/-- Files a licence under each identifier. -/
def file (r : Reading) (ids : List String) (l : Licence) : Reading where
  registry := ids.foldl (fun registry id => registry.insert id l) r.registry
  report := { r.report with entries := r.report.entries + ids.length }

/-- Takes in one licence of a record. -/
def absorbLicence (policy : SkipPolicy) (ids : List String) (r : Reading) :
    Except RecordFault Licence → Except RecordFault Reading
  | .ok l => .ok (r.file ids l)
  | .error fault => r.skip policy fault

/-- Takes in one record. -/
def absorb (policy : SkipPolicy) (r : Reading) (o : Outcome) : Except RecordFault Reading :=
  let r := { r with report := { r.report with records := r.report.records + 1 } }
  match o with
  | .refused fault => r.skip policy fault
  | .granted ids licences => licences.foldlM (absorbLicence policy ids) r

end Reading

/-- What has been read, if it was read to the end of the document. -/
def Ending.close (r : Reading) : Ending → Except DocumentFault Reading
  | .complete => .ok r
  | .broken => .error .markup
  | .torn => .error .torn

/-- The reading of a document under a policy. -/
def Survey.read (s : Survey) (policy : SkipPolicy) : Except DocumentFault Reading := do
  let r ← (s.outcomes.foldlM (Reading.absorb policy) .empty).mapError .record
  s.ending.close r

end Holdings
