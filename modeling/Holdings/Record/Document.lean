import Holdings.Json.Shape
import Holdings.Record
/-!
# Records in JSON

A record comes as an object. The fields that are known have names of their own and hold texts
or lists of texts; all other members are kept as they are, in their order, and are written after
the known fields. An empty field is not written, except for the source identifier.
-/

namespace Holdings

open Json

/-- A record as it comes: the known fields as written, and the other members. -/
structure RecordDocument where
  sourceId : String
  id : String
  collections : List String
  packages : List String
  issns : List String
  eissns : List String
  isbns : List String
  eisbns : List String
  doi : String
  subjects : List String
  date : String
  volume : String
  issue : String
  labels : List String
  extra : List (String × Value)

namespace RecordDocument

/-- The record without any field. -/
def empty : RecordDocument :=
  ⟨"", "", [], [], [], [], [], [], "", [], "", "", "", [], []⟩

/-- What a known field holds, with the ways to get it and to set it. -/
inductive Content where
  | text (get : RecordDocument → String) (set : RecordDocument → String → RecordDocument)
  | texts (get : RecordDocument → List String)
      (set : RecordDocument → List String → RecordDocument)

/-- A known field. -/
structure Field where
  name : String
  content : Content

/-- The field that is written even if it is empty. -/
def sourceField : Field :=
  ⟨"finc.source_id", .text sourceId fun r s => { r with sourceId := s }⟩

/-- The other known fields, in the order in which they are written. -/
def optionalFields : List Field :=
  [⟨"finc.id", .text id fun r s => { r with id := s }⟩,
   ⟨"finc.mega_collection", .texts collections fun r ss => { r with collections := ss }⟩,
   ⟨"x.packages", .texts packages fun r ss => { r with packages := ss }⟩,
   ⟨"rft.issn", .texts issns fun r ss => { r with issns := ss }⟩,
   ⟨"rft.eissn", .texts eissns fun r ss => { r with eissns := ss }⟩,
   ⟨"rft.isbn", .texts isbns fun r ss => { r with isbns := ss }⟩,
   ⟨"rft.eisbn", .texts eisbns fun r ss => { r with eisbns := ss }⟩,
   ⟨"doi", .text doi fun r s => { r with doi := s }⟩,
   ⟨"x.subjects", .texts subjects fun r ss => { r with subjects := ss }⟩,
   ⟨"rft.date", .text date fun r s => { r with date := s }⟩,
   ⟨"rft.volume", .text volume fun r s => { r with volume := s }⟩,
   ⟨"rft.issue", .text issue fun r s => { r with issue := s }⟩,
   ⟨"x.labels", .texts labels fun r ss => { r with labels := ss }⟩]

/-- All known fields. -/
def fields : List Field := sourceField :: optionalFields

/-! ## Reading -/

/-- Reads a known field. -/
def Field.reader (f : Field) : FieldReader RecordDocument where
  name := f.name
  read d r :=
    match f.content with
    | .text _ set => do .ok (set r (← d.string))
    | .texts _ set => do .ok (set r (← d.strings))

/-- Keeps a member that is no known field. -/
def keep (name : String) (d : Draft) (r : RecordDocument) : Except Fault RecordDocument := do
  let v ← d.value (depth - 1)
  .ok { r with extra := Pairs.put name v r.extra }

/-- The record in a draft. -/
def ofDraft : Draft → Except Fault RecordDocument
  | .object members ending => do
    let (_, r) ← readMembers (fields.map Field.reader) keep [] empty members
    ending.read
    .ok r
  | d => d.mismatch "struct IntermediateRecord"

/-- The record that a text writes. -/
def ofJson (s : String) : Except Fault RecordDocument := (Document.ofText s).read ofDraft

/-! ## Writing -/

/-- The value of a field. -/
def Field.value (f : Field) (r : RecordDocument) : Value :=
  match f.content with
  | .text get _ => .string (get r)
  | .texts get _ => .ofTexts (get r)

/-- Whether a field is empty. -/
def Field.isEmpty (f : Field) (r : RecordDocument) : Bool :=
  match f.content with
  | .text get _ => (get r).isEmpty
  | .texts get _ => (get r).isEmpty

/-- A record as a value. -/
def toJson (r : RecordDocument) : Value :=
  let present := optionalFields.filter fun f => !f.isEmpty r
  .object ((sourceField :: present).map (fun f => (f.name, f.value r)) ++ r.extra)

/-! ## Facts -/

/-- What filters are told about a record. -/
def facts (r : RecordDocument) : Record where
  sourceId := r.sourceId
  collections := r.collections
  packages := r.packages
  issns := r.issns
  eissns := r.eissns
  signature := .parse r.date r.volume r.issue
  doi := r.doi
  isbns := r.isbns
  eisbns := r.eisbns
  subjects := r.subjects

end RecordDocument

end Holdings
