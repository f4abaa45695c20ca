import Holdings.Config
import Holdings.Fault
import Holdings.Filter
import Holdings.Filter.Setting
import Holdings.Text.Lines
/-!
# Reading filters

A filter is read from a value by the constructor that is registered under the name of its one
member. Constructors may read values inside of their setting, or the setting itself, as further
nodes, but no larger ones, so reading comes to an end.

Holdings are loaded on the way, each file once: what has been loaded is kept under the components
of its path, also after a fault. The first fault, from left to right and from the outside in, is
the one that counts.
-/

namespace Holdings

open Json (Value)

/-- The registries that have been loaded. -/
abbrev Cache := Keyed Path.Components Registry

/-- A computation that may load holdings and may fail; what it has loaded stays. -/
abbrev Decoding := ExceptT Fault (StateM Cache)

/-- What reading a filter depends on. -/
structure Surroundings where
  files : FileTree
  config : Config

/-- Makes a filter from a setting. The second argument reads nodes that are no larger than the
setting. -/
abbrev Constructor :=
  Surroundings → (setting : Value) →
    ((node : Value) → sizeOf node ≤ sizeOf setting → Decoding Filter) → Decoding Filter

/-- The constructors under their names. -/
abbrev Constructors := Keyed String Constructor

/-- Fails because of a node. -/
def refuse {α : Type} (f : NodeFault) : Decoding α := throw (.invalidFilter none f)

/-- What has the right shape, or the fault of a node. -/
def demand {α : Type} (fault : Json.ShapeFault → NodeFault) :
    Except Json.ShapeFault α → Decoding α
  | .ok a => pure a
  | .error f => refuse (fault f)

namespace Surroundings

/-- Reads a holdings file in the format that it has. Where the reading is torn there is nobody left
to name the file. -/
def detect (files : FileTree) (policy : SkipPolicy) (path : String) : Except Fault Detected :=
  match files.read path with
  | .error f => .error (.holdings path (.file f))
  | .ok bytes =>
    match Format.detect policy bytes with
    | .ok d => .ok d
    | .error (.rejected rs) => .error (.holdings path (.undetected rs))
    | .error .torn => .error (.document .torn)

/-- The licences in a holdings file, which is only read if it is not in the cache. -/
def load (s : Surroundings) (name : String) : Decoding Registry := do
  let path := s.config.resolve name
  match (← get).find? (Path.components path) with
  | some r => pure r
  | none =>
    match detect s.files s.config.policy path with
    | .error f => throw f
    | .ok d =>
      modify fun cache => cache.put (Path.components path) d.reading.registry
      pure d.reading.registry

/-- The licences in some holdings files, put together. -/
def loadAll (s : Surroundings) (merged : Registry) : List String → Decoding Registry
  | [] => pure merged
  | name :: names => do
    let r ← s.load name
    s.loadAll (merged.merge r) names

end Surroundings

/-! ## Lists of identifiers -/

/-- The lines of a text that are not blank, without the blanks around them. -/
def listLines (text : String) : List (List Char) :=
  ((Text.lines text.toList).map Text.trim).filter fun line => !line.isEmpty

/-- The serial numbers in a line: all in canonical form, or if there is none, the one that the
line is. -/
def issnsOnLine (line : List Char) : List String :=
  let upper := line.map Char.toUpper
  match Issn.findAll upper with
  | [] => ((Issn.parse? (String.ofList upper)).map Issn.text).toList
  | found => found.map String.ofList

/-- The book numbers in a line. -/
def isbnsOnLine (line : List Char) : List String :=
  (Isbn.findAll line).map String.ofList

/-- The identifiers of a setting: strings, or strings together with those in the lines of a
file. -/
def identifiers (s : Surroundings) (kind : String) (onLine : List Char → List String)
    (v : Value) : Decoding (List String) := do
  match v with
  | .array _ => demand (.notStrings kind) (stringsOf v)
  | _ =>
    let setting ← demand (.shape kind) (IdentifierSetting.ofValue v)
    match setting.file with
    | none => pure setting.list
    | some name =>
      let path := s.config.resolve name
      match s.files.readText path with
      | .error f => refuse (.unreadable kind path f)
      | .ok text => pure (setting.list ++ (listLines text).flatMap onLine)

/-! ## Constructors -/

/-- Filters without a setting; an object has to stand in its place. -/
def bare (kind : String) (f : Filter) : Constructor := fun _ v _ =>
  match v with
  | .object _ => pure f
  | _ => refuse (.notSettings kind v)

/-- Filters that ask for one of some names. -/
def named (kind : String) (make : List String → Filter) : Constructor := fun _ v _ => do
  return make (← demand (.notStrings kind) (stringsOf v))

/-- Filters that ask for one of some identifiers. -/
def identified (kind : String) (onLine : List Char → List String)
    (make : List String → Filter) : Constructor := fun s v _ => do
  return make (← identifiers s kind onLine v)

/-- The filter on holdings. One source keeps the licences as they were loaded. -/
def held : Constructor := fun s v _ => do
  let setting ← demand (.shape "holdings") (HoldingsSetting.ofValue v)
  match setting.urls.find? fun url => !(Text.after? Path.fileScheme.toList url.toList).isSome with
  | some url => refuse (.unsupportedUrl url)
  | none =>
    let registry ← match setting.sources with
      | [] => refuse .noSource
      | [name] => s.load name
      | names => s.loadAll .empty names
    return .holdings ⟨setting.sources, registry, setting.verbose.getD s.config.verbose⟩

theorem sizeOf_le_of_mem {node : Value} {nodes : List Value} (h : node ∈ nodes) :
    sizeOf node ≤ sizeOf (Value.array nodes) := by
  have := List.sizeOf_lt_of_mem h
  simp only [Value.array.sizeOf_spec]
  omega

/-- Filters that put others together, which are read from left to right. -/
def combined (kind : String) (make : List Filter → Filter) : Constructor := fun _ v read =>
  match v, read with
  | .array nodes, read => do
    let fs ← nodes.attach.mapM fun ⟨node, h⟩ => read node (sizeOf_le_of_mem h)
    return make fs
  | v, _ => refuse (.notNodes kind v)

/-- The opposite of one filter, which may stand in an array by itself. -/
def negated : Constructor := fun _ v read =>
  match v, read with
  | .array [node], read => do return .not (← read node (sizeOf_le_of_mem (by simp)))
  | .array nodes, _ => refuse (.notOneNode nodes.length)
  | v, read => do return .not (← read v (Nat.le_refl _))

/-- The kinds of filters that are always known. -/
inductive Builtin where
  | any | none | source | collection | package | issn | doi | isbn | subject | holdings
  | and | or | not
deriving DecidableEq

namespace Builtin

/-- All kinds. -/
def all : List Builtin :=
  [.any, .none, .source, .collection, .package, .issn, .doi, .isbn, .subject, .holdings, .and,
    .or, .not]

/-- The name of a kind. -/
def name : Builtin → String
  | .any => "any"
  | .none => "none"
  | .source => "source"
  | .collection => "collection"
  | .package => "package"
  | .issn => "issn"
  | .doi => "doi"
  | .isbn => "isbn"
  | .subject => "subject"
  | .holdings => "holdings"
  | .and => "and"
  | .or => "or"
  | .not => "not"

/-- The constructor of a kind. -/
def construct : Builtin → Constructor
  | .any => bare "any" .any
  | .none => bare "none" .none
  | .source => named "source" .source
  | .collection => named "collection" .collection
  | .package => named "package" .package
  | .issn => identified "issn" issnsOnLine .ofIssns
  | .doi => identified "doi" (fun line => [String.ofList line]) .ofDois
  | .isbn => identified "isbn" isbnsOnLine .ofIsbns
  | .subject => named "subject" .subject
  | .holdings => held
  | .and => combined "and" .and
  | .or => combined "or" .or
  | .not => negated

end Builtin

namespace Constructors

/-- Adds a constructor under a name, or replaces the one that is there. -/
def register (cs : Constructors) (name : String) (c : Constructor) : Constructors :=
  cs.put name c

/-- The constructors of the kinds that are always known. -/
def standard : Constructors :=
  Builtin.all.foldl (fun cs b => cs.register b.name b.construct) .empty

/-- Whether a name is registered. -/
def contains (cs : Constructors) (name : String) : Bool := (cs.find? name).isSome

/-- Reads a node. -/
def decode (cs : Constructors) (s : Surroundings) : Value → Decoding Filter
  | .object [] => refuse .noMember
  | .object [(name, setting)] =>
    match cs.find? name with
    | none => throw (.unknownFilter name)
    | some construct => construct s setting fun node _ => decode cs s node
  | .object members => refuse (.severalMembers (members.map Prod.fst))
  | v => refuse (.notObject v)
termination_by v => sizeOf v
decreasing_by
  simp only [Value.object.sizeOf_spec, List.cons.sizeOf_spec, List.nil.sizeOf_spec,
    Prod.mk.sizeOf_spec]
  omega

end Constructors

end Holdings
