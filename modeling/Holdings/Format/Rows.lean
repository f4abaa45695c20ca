/-!
# Rows of tab-separated fields

A document cut into rows of byte fields. A carriage return or a line feed ends a row, rows
without any byte are no rows, and nothing is quoted. A byte order mark in front is left out.
The line of a row is one more than the number of line feeds up to the end of the row before
it: line feeds of empty rows in between do not count for it, and neither does the line feed
after a carriage return that ended the row before.
-/

namespace Holdings.Rows

/-- A row: its line, and its fields, of which there is at least one. -/
structure Row where
  line : Nat
  fields : List (List UInt8)
deriving DecidableEq

/-- The bytes that end a row. -/
def isEnding (b : UInt8) : Bool := b = 10 || b = 13

/-- The fields of a row, which tabs separate. -/
def fields : List UInt8 → List (List UInt8)
  | [] => [[]]
  | b :: bs =>
    if b = 9 then [] :: fields bs
    else match fields bs with
      | [] => [[b]]
      | f :: fs => (b :: f) :: fs

/-- How many line feeds there are in some bytes. -/
def lineFeeds (bs : List UInt8) : Nat := bs.count 10

/-- The rows of bytes that start on the given line. -/
def rowsFrom (line : Nat) (bs : List UInt8) : List Row :=
  match _h : bs.dropWhile isEnding with
  | [] => []
  | b :: body =>
    let passed := lineFeeds (bs.takeWhile isEnding)
    let row := (b :: body).takeWhile fun c => !isEnding c
    let rest := (b :: body).dropWhile fun c => !isEnding c
    ⟨line, fields row⟩ :: rowsFrom (line + passed + lineFeeds (rest.take 1)) (rest.drop 1)
termination_by bs.length
decreasing_by
  have h₁ : (b :: body).length ≤ bs.length := _h ▸ (List.dropWhile_sublist isEnding).length_le
  have h₂ : ((b :: body).dropWhile fun c => !isEnding c).length ≤ (b :: body).length :=
    (List.dropWhile_sublist _).length_le
  simp only [List.length_drop, List.length_cons] at *
  omega

/-- The bytes after a byte order mark in front of them. -/
def withoutMark : List UInt8 → List UInt8
  | 0xEF :: 0xBB :: 0xBF :: bs => bs
  | bs => bs

/-- The rows of a document. -/
def rows (bs : List UInt8) : List Row :=
  rowsFrom 1 (withoutMark bs)

end Holdings.Rows
