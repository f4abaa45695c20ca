import Holdings.Signature
/-!
# Records

What is asked of a record: where it comes from, the collections and packages that it belongs
to, its serial numbers, and its place in the run of the serial. Its digital object identifier,
book numbers and subjects may be missing.
-/

namespace Holdings

/-- The facts about a record. -/
structure Record where
  sourceId : String
  collections : List String
  packages : List String
  issns : List String
  eissns : List String
  signature : Signature
  doi : String
  isbns : List String
  eisbns : List String
  subjects : List String
deriving DecidableEq

namespace Record

/-- The serial numbers of all editions, those in print first. -/
def serials (r : Record) : List String := r.issns ++ r.eissns

/-- The book numbers of all editions, those in print first. -/
def books (r : Record) : List String := r.isbns ++ r.eisbns

/-- The record without the facts that may be missing. -/
def required (r : Record) : Record :=
  { r with doi := "", isbns := [], eisbns := [], subjects := [] }

end Record

end Holdings
