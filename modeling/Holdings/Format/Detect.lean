import Holdings.Format
/-!
# Finding the format of a document

The formats are tried in turn, and the first one whose reading brings a licence is taken. If
none is, the reasons of all are given. Where a reading is torn the formats after it are not tried.
An empty document holds nothing in no format.
-/

namespace Holdings

/-- Why a format was not taken. -/
inductive Rejection where
  | nothing (report : Report)
  | fault (fault : DocumentFault)
deriving DecidableEq

/-- The reason in words. -/
def Rejection.message : Rejection → String
  | .nothing report =>
    "no entries (" ++ toString report.records ++ " records, " ++ toString report.skipped ++
      " skipped)"
  | .fault f => f.message

/-- A document read in the format that fits it. -/
structure Detected where
  format : Option Format
  reading : Reading
deriving DecidableEq

namespace Detected

/-- What an empty document is read as. -/
def empty : Detected := ⟨none, .empty⟩

instance : Inhabited Detected := ⟨empty⟩

end Detected

/-- Every format with the reason why it does not fit. -/
abbrev Rejections := List (Format × Rejection)

/-- The reasons in words. -/
def Rejections.message (rs : Rejections) : String :=
  "cannot detect holdings format: " ++
    String.intercalate "; " (rs.map fun (f, r) => f.name ++ ": " ++ r.message)

/-- Why no format was detected: none fits, or there is one in which the reading is torn. -/
inductive Undetected where
  | rejected (rs : Rejections)
  | torn
deriving DecidableEq

/-- The same with one more format that was tried before. -/
def Undetected.after (f : Format) (reason : Rejection) : Undetected → Undetected
  | .rejected rs => .rejected ((f, reason) :: rs)
  | .torn => .torn

namespace Format

/-- The reading of a document in a format that fits it, or the reason why it does not. -/
def attempt (f : Format) (policy : SkipPolicy) (bs : List UInt8) : Except Rejection Reading :=
  match f.parse policy bs with
  | .ok r => if r.registry.isEmpty then .error (.nothing r.report) else .ok r
  | .error fault => .error (.fault fault)

/-- The reading of a document in the first of some formats that fits it. -/
def tryAll (policy : SkipPolicy) (bs : List UInt8) :
    List Format → Except Undetected Detected
  | [] => .error (.rejected [])
  | f :: fs =>
    match f.attempt policy bs with
    | .ok r => .ok ⟨some f, r⟩
    | .error (.fault .torn) => .error .torn
    | .error reason => (tryAll policy bs fs).mapError (.after f reason)

/-- The reading of a document in whatever format it has. -/
def detect (policy : SkipPolicy) (bs : List UInt8) : Except Undetected Detected :=
  if bs.isEmpty then .ok .empty else tryAll policy bs all

end Format

end Holdings
