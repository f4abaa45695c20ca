import Holdings.Format.Embargo
import Holdings.Format.Reading
import Holdings.Format.Rows
import Holdings.Text.Utf8
/-!
# KBART tables

A table of titles: tab-separated, one title in a row, the first row is a heading. Columns go by
their place, counted from 0:

* 1 and 2: the identifiers of the print and of the electronic edition,
* 3 to 5: date, volume and issue of the first part that is covered,
* 6 to 8: the same of the last part,
* 12: the embargo,
* 21: free text that may hold further serial numbers.

A row that ends before the embargo column cannot be read. Rows of blank fields are passed over.
-/

namespace Holdings.Kbart

open Rows

/-- The number of columns that a row has at least. -/
def leastColumns : Nat := 13

/-- The trimmed text of a column; a column that is not there is empty. -/
def column (row : Row) (i : Nat) : String :=
  String.ofList (Text.trim (Text.Utf8.decodeLenient (row.fields.getD i [])))

/-- The signature in three columns from the given one on. -/
def signature (row : Row) (i : Nat) : Signature :=
  .parse (column row i) (column row (i + 1)) (column row (i + 2))

/-- The identifiers of a row. -/
def identifiers (row : Row) : List String :=
  Issn.normalize (column row 1) :: Issn.normalize (column row 2) ::
    (Issn.findAll (column row 21).toList).map String.ofList

/-- What a row says. An embargo that cannot be read counts before missing identifiers. -/
def outcome (row : Row) : Outcome :=
  if row.fields.length < leastColumns then
    .refused (.incompleteLine row.line row.fields.length)
  else match Embargo.readKbart (column row 12) with
    | .error fault => .refused fault
    | .ok embargo =>
      .ofRecord row.line (identifiers row) [.ok ⟨signature row 3, signature row 6, embargo⟩]

/-- The blank characters of ASCII: space, tab, line feed, form feed and carriage return. -/
def isBlankByte (b : UInt8) : Bool :=
  b = 32 || b = 9 || b = 10 || b = 12 || b = 13

/-- Whether all fields of a row are blank. -/
def isBlank (row : Row) : Bool :=
  row.fields.all fun f => f.all isBlankByte

/-- The outcomes of the rows below the heading. Every document can be read to its end. -/
def survey (bs : List UInt8) : Survey where
  outcomes := (((rows bs).drop 1).filter fun row => !isBlank row).map outcome
  ending := .complete

end Holdings.Kbart
