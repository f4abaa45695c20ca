import Holdings.Distinct
import Holdings.Isbn
import Holdings.Json.Value
import Holdings.Record
import Holdings.Registry
/-!
# Filters

A filter is a tree that decides at an instant whether a record belongs to an institution. Its
leaves ask for one fact of the record or for coverage by holdings, and further kinds of leaves
may be brought along. A filter is written as an object with one member, whose name says what
the node is.
-/

namespace Holdings

open Json (Value)

/-- A condition of a kind that is brought along: its name, its setting as it is written, and
when it holds. -/
structure Predicate where
  name : String
  setting : Value
  holds : Record → Instant → Bool

/-- The holdings that a leaf asks: where they come from, their licences, and whether the reasons
are collected if none of these covers a record. -/
structure HoldingsLeaf where
  sources : List String
  registry : Registry
  verbose : Bool

/-- Whether some licence for a serial of the record covers it. -/
def HoldingsLeaf.covers (h : HoldingsLeaf) (r : Record) (now : Instant) : Bool :=
  if h.verbose then (h.registry.check r.serials r.signature now).isOk
  else h.registry.coversAny r.serials r.signature now

/-- A filter. -/
inductive Filter where
  | any
  | none
  | source (ids : List String)
  | collection (names : List String)
  | package (names : List String)
  | issn (ids : List String)
  | doi (ids : List String)
  | isbn (ids : List String)
  | subject (names : List String)
  | holdings (leaf : HoldingsLeaf)
  | and (children : List Filter)
  | or (children : List Filter)
  | not (child : Filter)
  | custom (p : Predicate)

namespace Filter

instance : Inhabited Filter := ⟨.none⟩

/-! ## Leaves from identifiers as they are written -/

/-- Records with one of some serial numbers. -/
def ofIssns (ids : List String) : Filter := .issn (distinct (ids.map Issn.normalize))

/-- Records with one of some digital object identifiers. -/
def ofDois (ids : List String) : Filter := .doi (distinct (ids.map Text.trimmed))

/-- Records with one of some book numbers. -/
def ofIsbns (ids : List String) : Filter := .isbn (distinct (ids.map Isbn.normalize))

/-! ## Deciding -/

/-- Whether one of the names that a record has is wanted. -/
def containsAny (wanted present : List String) : Bool := present.any wanted.contains

mutual
/-- Whether a record passes at an instant. -/
def apply (r : Record) (now : Instant) : Filter → Bool
  | .any => true
  | .none => false
  | .source ids => ids.contains r.sourceId
  | .collection names => containsAny names r.collections
  | .package names => containsAny names r.packages
  | .issn ids => r.serials.any fun id => ids.contains (Issn.normalize id)
  | .doi ids => !r.doi.isEmpty && ids.contains r.doi
  | .isbn ids => r.books.any fun id => ids.contains (Isbn.normalize id)
  | .subject names => containsAny names r.subjects
  | .holdings leaf => leaf.covers r now
  | .and children => applyAll r now children
  | .or children => applyAny r now children
  | .not child => !child.apply r now
  | .custom p => p.holds r now
/-- Whether a record passes all of some filters. -/
def applyAll (r : Record) (now : Instant) : List Filter → Bool
  | [] => true
  | f :: fs => f.apply r now && applyAll r now fs
/-- Whether a record passes one of some filters. -/
def applyAny (r : Record) (now : Instant) : List Filter → Bool
  | [] => false
  | f :: fs => f.apply r now || applyAny r now fs
end

/-! ## Writing -/

/-- The setting of a leaf on holdings: its sources, and whether it is verbose if it is. -/
def leafSetting (h : HoldingsLeaf) : Value :=
  let sources : List (String × Value) := match h.sources with
    | [] => []
    | [path] => [("file", .string path)]
    | paths => [("files", .ofTexts paths)]
  let verbose : List (String × Value) := if h.verbose then [("verbose", .bool true)] else []
  .object (sources ++ verbose)

mutual
/-- A filter as a value. -/
def toJson : Filter → Value
  | .any => .object [("any", .object [])]
  | .none => .object [("none", .object [])]
  | .source ids => .object [("source", .ofTexts ids)]
  | .collection names => .object [("collection", .ofTexts names)]
  | .package names => .object [("package", .ofTexts names)]
  | .issn ids => .object [("issn", .ofTexts ids)]
  | .doi ids => .object [("doi", .ofTexts ids)]
  | .isbn ids => .object [("isbn", .ofTexts ids)]
  | .subject names => .object [("subject", .ofTexts names)]
  | .holdings leaf => .object [("holdings", leafSetting leaf)]
  | .and children => .object [("and", .array (allToJson children))]
  | .or children => .object [("or", .array (allToJson children))]
  | .not child => .object [("not", child.toJson)]
  | .custom p => .object [(p.name, p.setting)]
/-- Filters as values. -/
def allToJson : List Filter → List Value
  | [] => []
  | f :: fs => f.toJson :: allToJson fs
end

end Filter

end Holdings
