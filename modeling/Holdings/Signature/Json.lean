import Holdings.Json.Shape
import Holdings.Signature
/-!
# Signatures in JSON

A signature is an object with the fields `date`, `volume` and `issue`, of which the date has to
be there, and a date is an object with the fields `year`, `month` and `day`, of which the year
has to be there. Instead of an object there may be an array of the fields in this order; then
a date needs all of its fields. Other fields are passed over.
-/

namespace Holdings

open Json

namespace PartialDate

/-- The bounds of a year. -/
def readYear : Draft → Except Fault Int := Draft.integer (-2147483648) 2147483647 "i32"

/-- A month or a day, or null. -/
def readPart (d : Draft) : Except Fault (Option Nat) := do
  let n ← d.optional (Draft.integer 0 4294967295 "u32")
  .ok (n.map Int.toNat)

/-- The fields of a date. -/
def fields : List (FieldReader PartialDate) :=
  [⟨"year", fun d s => do .ok { s with year := ← readYear d }⟩,
   ⟨"month", fun d s => do .ok { s with month := ← readPart d }⟩,
   ⟨"day", fun d s => do .ok { s with day := ← readPart d }⟩]

/-- The date in a draft. -/
def ofDraft : Draft → Except Fault PartialDate
  | .list items ending => do
    let (short, date, rest) ← readItems ending 0 unset fields items
    if let some n := short then
      .error (.shape (.invalidLength n "struct PartialDate with 3 elements"))
    endItems rest ending
    .ok date
  | .object members ending => do
    let (seen, date) ← readMembers fields passOther [] unset members
    ending.read
    if "year" ∈ seen then .ok date else .error (.shape (.missingField "year"))
  | d => d.mismatch "struct PartialDate"

/-- A date as a value. -/
def toJson (d : PartialDate) : Value :=
  let part (n : Option Nat) : Value := n.elim .null fun n => .number (.int n)
  .object [("year", .number (.int d.year)), ("month", part d.month), ("day", part d.day)]

end PartialDate

namespace Signature

/-- The fields of a signature. -/
def fields : List (FieldReader Signature) :=
  [⟨"date", fun d s => do .ok { s with date := ← PartialDate.ofDraft d }⟩,
   ⟨"volume", fun d s => do .ok { s with volume := ← d.string }⟩,
   ⟨"issue", fun d s => do .ok { s with issue := ← d.string }⟩]

/-- The signature in a draft. -/
def ofDraft : Draft → Except Fault Signature
  | .list items ending => do
    let (short, s, rest) ← readItems ending 0 unset fields items
    if short = some 0 then
      .error (.shape (.invalidLength 0 "struct Signature with 3 elements"))
    endItems rest ending
    .ok s
  | .object members ending => do
    let (seen, s) ← readMembers fields passOther [] unset members
    ending.read
    if "date" ∈ seen then .ok s else .error (.shape (.missingField "date"))
  | d => d.mismatch "struct Signature"

/-- The signature that a text writes. -/
def ofJson (s : String) : Except Fault Signature := (Document.ofText s).read ofDraft

/-- A signature as a value. -/
def toJson (s : Signature) : Value :=
  .object [("date", s.date.toJson), ("volume", .string s.volume), ("issue", .string s.issue)]

end Signature

end Holdings
