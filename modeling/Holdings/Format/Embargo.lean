import Holdings.Embargo
import Holdings.Format.Fault
/-!
# Embargoes in documents

The embargo that a document writes, in the notation of its format, or the fault of a text that
writes none. The fault quotes the text as the document has it; only the number of days has lost
the blanks around it.
-/

namespace Holdings.Embargo

/-- What a text has been read as, or the fault that quotes it. -/
def orQuoted (text : String) : Option Embargo → Except RecordFault Embargo
  | some e => .ok e
  | none => .error (.invalidEmbargo text)

/-- The embargo of a KBART column. -/
def readKbart (s : String) : Except RecordFault Embargo := orQuoted s (ofKbart? s)

/-- The delay of an entitlement. -/
def readDelay (s : String) : Except RecordFault Embargo := orQuoted s (ofDelay? s)

/-- The number of days not available. -/
def readDays (s : String) : Except RecordFault Embargo := orQuoted (Text.trimmed s) (ofDays? s)

@[simp] theorem orQuoted_eq_ok_iff {text : String} {o : Option Embargo} {e : Embargo} :
    orQuoted text o = .ok e ↔ o = some e := by
  cases o <;> simp [orQuoted]

@[simp] theorem orQuoted_eq_error_iff {text : String} {o : Option Embargo} {f : RecordFault} :
    orQuoted text o = .error f ↔ o = none ∧ f = .invalidEmbargo text := by
  cases o with
  | none => simp [orQuoted, eq_comm]
  | some e => simp [orQuoted]

/-- What is made of an embargo is only at fault if there is none. -/
theorem eq_of_map_orQuoted {α : Type} {make : Embargo → α} {text : String} {o : Option Embargo}
    {f : RecordFault} (h : (orQuoted text o).map make = .error f) : f = .invalidEmbargo text := by
  cases o with
  | none => exact (Except.error.inj h).symm
  | some e => cases h

end Holdings.Embargo
