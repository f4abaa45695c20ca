import Holdings.Filter.Decode
import Holdings.Json.Draft
import Holdings.Record.Document
/-!
# Taggers

A tagger holds the filters of institutions and says which institutions a record belongs to. The
institutions keep the order in which they came; one that comes again takes its new filter in its
old place. A configuration is an object with an institution in each member, and its filters share
the holdings that they load.
-/

namespace Holdings

open Json (Value)

/-- The filters of institutions. -/
structure Tagger where
  filters : Keyed String Filter

namespace Tagger

/-- The tagger without institutions. -/
def empty : Tagger := ⟨.empty⟩

instance : Inhabited Tagger := ⟨empty⟩

/-- Gives an institution its filter. -/
def insert (t : Tagger) (institution : String) (f : Filter) : Tagger :=
  ⟨t.filters.put institution f⟩

/-- The filter of an institution. -/
def get? (t : Tagger) (institution : String) : Option Filter := t.filters.find? institution

theorem get?_insert (t : Tagger) (institution other : String) (f : Filter) :
    (t.insert institution f).get? other =
      if institution = other then some f else t.get? other :=
  t.filters.find?_put institution other f

/-- The institutions, in order of arrival. -/
def institutions (t : Tagger) : List String := t.filters.keys

/-- The number of institutions. -/
def size (t : Tagger) : Nat := t.filters.size

/-- Whether there are no institutions. -/
def isEmpty (t : Tagger) : Bool := t.filters.isEmpty

/-! ## Configurations -/

/-- Adds the institutions of a configuration one after the other. -/
def decodeMembers (cs : Constructors) (s : Surroundings) (t : Tagger) :
    List (String × Value) → Decoding Tagger
  | [] => pure t
  | (institution, node) :: ms => do
    let f ← (cs.decode s node).adapt (Fault.ownedBy institution)
    decodeMembers cs s (t.insert institution f) ms

/-- The tagger that a configuration describes. -/
def ofValue (cs : Constructors) (s : Surroundings) (v : Value) : Except Fault Tagger :=
  match v with
  | .object members => ((decodeMembers cs s empty members).run .empty).1
  | _ => .error .notConfiguration

/-- The tagger that the text of a configuration describes. -/
def ofText (cs : Constructors) (s : Surroundings) (text : String) : Except Fault Tagger := do
  let v ← (Value.parse text).mapError .json
  ofValue cs s v

/-- The tagger that a configuration file describes. Unless a base directory is set, paths in it
are relative to its own directory. -/
def ofFile (cs : Constructors) (s : Surroundings) (path : String) : Except Fault Tagger := do
  let text ← (s.files.readText path).mapError .file
  let base := s.config.base.or (Path.parent? path)
  ofText cs { s with config := { s.config with base := base } } text

/-- The filters as a configuration. -/
def toJson (t : Tagger) : Value :=
  .object (t.filters.toList.map fun (institution, f) => (institution, f.toJson))

/-! ## Tags and labels -/

/-- The institutions that a record belongs to, in their order. -/
def tags (t : Tagger) (now : Instant) (r : Record) : List String :=
  (t.filters.toList.filter fun p => p.2.apply r now).map Prod.fst

/-- The tags in alphabetical order. -/
def labels (t : Tagger) (now : Instant) (r : Record) : List String :=
  (t.tags now r).mergeSort fun a b => decide (a ≤ b)

/-- A record with its labels in place of those that it had. -/
def label (t : Tagger) (now : Instant) (r : RecordDocument) : RecordDocument :=
  { r with labels := t.labels now r.facts }

/-- The tags of each record. -/
def tagAll (t : Tagger) (now : Instant) (rs : List Record) : List (List String) :=
  rs.map (t.tags now)

/-- Each record with its labels. -/
def labelAll (t : Tagger) (now : Instant) (rs : List RecordDocument) : List RecordDocument :=
  rs.map (t.label now)

end Tagger

end Holdings
