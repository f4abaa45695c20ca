import Holdings.PartialDate
/-!
# Signatures

Where a part of a serial stands: its date, volume and issue. Volume and issue are free text;
what is compared is the number they carry, their ordinal. A text without a number has none and
is never compared.
-/

namespace Holdings

/-- The first run of digits in a text. -/
def firstDigits (s : List Char) : List Char :=
  (s.dropWhile fun c => !c.isDigit).takeWhile Char.isDigit

theorem firstDigits_sublist (s : List Char) : (firstDigits s).Sublist s :=
  (List.takeWhile_sublist _).trans (List.dropWhile_sublist _)

/-- The number that a text carries: its value if all of it is a numeral, otherwise that of its
first run of digits. Numbers past 64 bits do not count. -/
def ordinal? (s : String) : Option Int :=
  let s := Text.trim s.toList
  match Text.int64? s with
  | some n => some n
  | none => Text.int64? (firstDigits s)

/-- A text without digits carries no number. -/
theorem ordinal?_eq_none {s : String} (h : ∀ c ∈ s.toList, c.isDigit = false) :
    ordinal? s = none := by
  have ht : ∀ c ∈ Text.trim s.toList, c.isDigit = false :=
    fun c hc => h c ((Text.trim_sublist _).mem hc)
  have hf : ∀ c ∈ firstDigits (Text.trim s.toList), c.isDigit = false :=
    fun c hc => ht c ((firstDigits_sublist _).mem hc)
  simp only [ordinal?, Text.int64?_eq_none ht, Text.int64?_eq_none hf]

/-- The place of an article, or of the edge of a window, in the run of a serial. -/
structure Signature where
  date : PartialDate
  volume : String
  issue : String
deriving DecidableEq, Inhabited

namespace Signature

/-- The signature of which nothing is known. -/
def unset : Signature := ⟨.unset, "", ""⟩

/-- The signature that three texts write. A date that cannot be read is unset. -/
def parse (date volume issue : String) : Signature :=
  ⟨(PartialDate.parse? date).getD .unset, Text.trimmed volume, Text.trimmed issue⟩

/-- A signature of which only the year is known. -/
def ofYear (year : Int) : Signature := ⟨.ofYear year, "", ""⟩

/-- Whether nothing is known. -/
def isUnbounded (s : Signature) : Bool :=
  !s.date.isSet && s.volume.isEmpty && s.issue.isEmpty

/-- The number of the volume. -/
def volumeOrdinal? (s : Signature) : Option Int := ordinal? s.volume

/-- The number of the issue. -/
def issueOrdinal? (s : Signature) : Option Int := ordinal? s.issue

end Signature

end Holdings
