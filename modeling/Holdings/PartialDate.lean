import Holdings.Timestamp
import Holdings.Text.Blank
import Holdings.Text.Split
/-!
# Dates known in part

A date of which the month, or the month and the day, may be missing. Year 0 stands for a date
that is not known at all. Three notations are read: a timestamp; digits without hyphens, as in
`2006`, `200601` and `20060102`; and parts with hyphens, where a month may be a name and a part
that is not known is left empty or filled with the letter x.
-/

namespace Holdings

/-- A date known in part. -/
structure PartialDate where
  year : Int
  month : Option Nat
  day : Option Nat
deriving DecidableEq, Inhabited

namespace PartialDate

/-- The date that is not known. -/
def unset : PartialDate := ⟨0, none, none⟩

/-- A date of which only the year is known. -/
def ofYear (year : Int) : PartialDate := ⟨year, none, none⟩

/-- Whether the year is known. -/
def isSet (d : PartialDate) : Bool := d.year ≠ 0

/-- How the years of two dates compare. -/
def compareYears (a b : PartialDate) : Ordering := compare a.year b.year

/-- The first day that the date may mean; none if it is unset or there is no such day. -/
def firstDay? (d : PartialDate) : Option Calendar.Date :=
  if d.isSet then Calendar.Date.ofYmd? d.year (d.month.getD 1) (d.day.getD 1) else none

/-- The year in four places at least, then month and day in two each as far as known; a day
without a month is not shown. -/
def display (d : PartialDate) : String :=
  let year := Text.paddedInt 4 d.year
  String.ofList <| match d.month, d.day with
    | some m, some n => year ++ '-' :: Text.padded 2 m ++ '-' :: Text.padded 2 n
    | some m, none => year ++ '-' :: Text.padded 2 m
    | none, _ => year

/-! ## Reading -/

/-- The English names of the months. -/
def monthNames : List (List Char) :=
  ["january", "february", "march", "april", "may", "june", "july", "august", "september",
    "october", "november", "december"].map String.toList

/-- The position, from 1, of the month with this name, or with this name of three letters. -/
def monthNamed? (name : List Char) : Option Nat :=
  (monthNames.findIdx? fun n => name = n || name = n.take 3).map (· + 1)

/-- A month as one or two digits, or as an English name in any case, cut to three letters or
not. -/
def month? (part : List Char) : Option Nat :=
  if part.all Char.isDigit then
    if part.length ≤ 2 then (Text.natural? part).filter fun m => 1 ≤ m && m ≤ 12 else none
  else monthNamed? (part.map Char.toLower)

/-- A part that is left open: empty, or written with the letter x only. -/
def isOpen (part : List Char) : Bool :=
  part.all fun c => c = 'x' || c = 'X'

/-- A date of which all is known, if there is such a day. -/
def full? (year : Int) (month day : Nat) : Option PartialDate :=
  (Calendar.Date.ofYmd? year month day).map fun _ => ⟨year, some month, some day⟩

/-- A date in digits: four for the year, then two for the month, then two for the day. -/
def ofDigits? (s : List Char) : Option PartialDate := do
  let year ← Text.natural? (s.take 4)
  if s.length = 4 then some (ofYear year)
  else if s.length = 6 then
    let month ← month? (s.drop 4)
    some ⟨year, some month, none⟩
  else if s.length = 8 then
    let month ← Text.natural? ((s.drop 4).take 2)
    let day ← Text.natural? (s.drop 6)
    full? year month day
  else none

/-- A year of four digits. -/
def year? (part : List Char) : Option Nat :=
  if part.length = 4 then Text.natural? part else none

/-- A day as one or two digits. -/
def day? (part : List Char) : Option Nat :=
  if part.length ≤ 2 then Text.natural? part else none

/-- A date in one to three parts. An open month hides the part after it. -/
def ofParts? : List (List Char) → Option PartialDate
  | [y] => do
    let year ← year? y
    some (ofYear year)
  | [y, m] => do
    let year ← year? y
    if isOpen m then some (ofYear year)
    else
      let month ← month? m
      some ⟨year, some month, none⟩
  | [y, m, d] => do
    let year ← year? y
    if isOpen m then some (ofYear year)
    else
      let month ← month? m
      if isOpen d then some ⟨year, some month, none⟩
      else
        let day ← day? d
        full? year month day
  | _ => none

/-- The date that a timestamp shows on its own clock. -/
def ofTimestamp (t : Timestamp) : PartialDate :=
  ⟨t.date.year, some t.date.month, some t.date.day⟩

/-- The date that a text writes, with blanks around it. -/
def parse? (s : String) : Option PartialDate :=
  let s := Text.trim s.toList
  if s = [] then none
  else match Timestamp.parse? s with
    | some t => some (ofTimestamp t)
    | none => if s.all Char.isDigit then ofDigits? s else ofParts? (Text.split '-' s)

end PartialDate

end Holdings
