import Holdings.Proofs.Loading
import Holdings.Proofs.Nodes
/-!
# What nodes ask for

A node has a shape of its own, without regard to the nodes inside of it. By its shape it is refused,
or it asks for something (`Request`): the file of a list, files with holdings, or further nodes. So
the nodes of a tree come in an order that can be told before anything is read, each before those
inside of it and these from left to right (`Request.nodes`).

Reading a tree is nothing but looking at these nodes one after the other (`Request.effect_decode`),
apart from the filter that comes of it. This is seen kind by kind (`Request.effect_construct`), and
then by induction on the size of the tree.
-/

namespace Holdings

open Json (Value)
open Decoding

/-! ## What a node asks for -/

/-- What a node asks for if its shape is right. -/
inductive Request where
  | nothing
  | list (kind : Builtin) (name : String)
  | holdings (sources : List String)
  | filters (nodes : List Value)

namespace Request

/-- Filters without a setting ask for nothing, but an object has to stand there. -/
def ofBare (b : Builtin) : Value → Except NodeFault Request
  | .object _ => .ok .nothing
  | v => .error (.notSettings b.name v)

/-- Names ask for nothing. -/
def ofNames (b : Builtin) (v : Value) : Except NodeFault Request :=
  match stringsOf v with
  | .ok _ => .ok .nothing
  | .error f => .error (.notStrings b.name f)

/-- Identifiers ask for the file of their list if there is one. -/
def ofIdentifiers (b : Builtin) (v : Value) : Except NodeFault Request :=
  match v with
  | .array items => ofNames b (.array items)
  | v =>
    match IdentifierSetting.ofValue v with
    | .ok ids => .ok (ids.file.elim .nothing (.list b))
    | .error f => .error (.shape b.name f)

/-- Holdings ask for their sources. There has to be one, and all addresses have to be local. -/
def ofPlaces (b : Builtin) (v : Value) : Except NodeFault Request :=
  match HoldingsSetting.ofValue v with
  | .ok places =>
    match places.urls.find? fun url => !(Text.after? Path.fileScheme.toList url.toList).isSome with
    | some url => .error (.unsupportedUrl url)
    | none => if places.sources = [] then .error .noSource else .ok (.holdings places.sources)
  | .error f => .error (.shape b.name f)

/-- A combination asks for the nodes of an array. -/
def ofNodes (b : Builtin) : Value → Except NodeFault Request
  | .array nodes => .ok (.filters nodes)
  | v => .error (.notNodes b.name v)

/-- A negation asks for one node, which may stand in an array. -/
def ofOneNode : Value → Except NodeFault Request
  | .array [node] => .ok (.filters [node])
  | .array nodes => .error (.notOneNode nodes.length)
  | v => .ok (.filters [v])

/-- What a setting asks for, or why its kind refuses its shape. -/
def ofSetting (b : Builtin) (setting : Value) : Except NodeFault Request :=
  match b with
  | .any | .none => ofBare b setting
  | .source | .collection | .package | .subject => ofNames b setting
  | .issn | .doi | .isbn => ofIdentifiers b setting
  | .holdings => ofPlaces b setting
  | .and | .or => ofNodes b setting
  | .not => ofOneNode setting

section

variable (kinds : String → Option Builtin)

/-- What a node asks for, or what is wrong with its own shape, if `kinds` says which kind is known
under a name. -/
def ofNode : Value → Except Fault Request
  | .object [] => .error (.invalidFilter none .noMember)
  | .object [(name, setting)] =>
    match kinds name with
    | none => .error (.unknownFilter name)
    | some b => (ofSetting b setting).mapError (.invalidFilter none)
  | .object members => .error (.invalidFilter none (.severalMembers (members.map Prod.fst)))
  | v => .error (.invalidFilter none (.notObject v))

/-- The files with holdings that are asked for. -/
def sources : Request → List String
  | .holdings sources => sources
  | _ => []

/-- The nodes that are asked for. -/
def inner : Request → List Value
  | .filters nodes => nodes
  | _ => []

theorem ofNames_ne_filters (b : Builtin) (v : Value) (nodes : List Value) :
    ofNames b v ≠ .ok (.filters nodes) := by
  unfold ofNames
  split <;> exact nofun

theorem ofIdentifiers_ne_filters (b : Builtin) (v : Value) (nodes : List Value) :
    ofIdentifiers b v ≠ .ok (.filters nodes) := by
  unfold ofIdentifiers
  split
  · exact ofNames_ne_filters b _ nodes
  · split
    · next ids _ => cases ids.file <;> exact nofun
    · exact nofun

theorem ofPlaces_ne_filters (b : Builtin) (v : Value) (nodes : List Value) :
    ofPlaces b v ≠ .ok (.filters nodes) := by
  unfold ofPlaces
  split
  · split
    · exact nofun
    · split <;> exact nofun
  · exact nofun

theorem sizeOf_le_of_ofSetting {b : Builtin} {setting : Value} {nodes : List Value}
    (h : ofSetting b setting = .ok (.filters nodes)) {node : Value} (hnode : node ∈ nodes) :
    sizeOf node ≤ sizeOf setting := by
  cases b with
  | any | none => cases setting <;> cases h
  | source | collection | package | subject => exact absurd h (ofNames_ne_filters _ _ _)
  | issn | doi | isbn => exact absurd h (ofIdentifiers_ne_filters _ _ _)
  | holdings => exact absurd h (ofPlaces_ne_filters _ _ _)
  | and | or =>
      cases setting with
      | array items =>
          cases h
          exact sizeOf_le_of_mem hnode
      | null | bool _ | number _ | string _ | object _ => cases h
  | not =>
      replace h : ofOneNode setting = .ok (.filters nodes) := h
      unfold ofOneNode at h
      split at h
      · cases h
        exact sizeOf_le_of_mem hnode
      · cases h
      · cases h
        exact Nat.le_of_eq (congrArg sizeOf (List.mem_singleton.mp hnode))

theorem sizeOf_lt_of_ofNode {node : Value} {nodes : List Value}
    (h : ofNode kinds node = .ok (.filters nodes)) {v : Value} (hv : v ∈ nodes) :
    sizeOf v < sizeOf node := by
  unfold ofNode at h
  split at h
  · cases h
  · next name setting =>
    split at h
    · cases h
    · next b _ =>
      cases hb : ofSetting b setting with
      | error f =>
          rw [hb] at h
          cases h
      | ok q =>
          rw [hb] at h
          cases h
          have hle := sizeOf_le_of_ofSetting hb hv
          simp only [Value.object.sizeOf_spec, List.cons.sizeOf_spec, List.nil.sizeOf_spec,
            Prod.mk.sizeOf_spec]
          omega
  · cases h
  · cases h

/-- The nodes right inside of a node. -/
def innerNodes (node : Value) : List Value :=
  match ofNode kinds node with
  | .ok q => q.inner
  | .error _ => []

theorem sizeOf_lt_of_mem_innerNodes {node v : Value} (h : v ∈ innerNodes kinds node) :
    sizeOf v < sizeOf node := by
  unfold innerNodes at h
  split at h
  · next q hq =>
    cases q with
    | filters nodes => exact sizeOf_lt_of_ofNode kinds hq h
    | nothing | list _ _ | holdings _ => cases h
  · cases h

/-- The nodes of a tree in the order in which they are read: a node comes before those inside of
it, and these come from left to right. -/
def nodes (node : Value) : List Value :=
  node :: (innerNodes kinds node).attach.flatMap fun v => nodes v.1
termination_by sizeOf node
decreasing_by exact sizeOf_lt_of_mem_innerNodes kinds v.2

theorem nodes_eq (node : Value) :
    nodes kinds node = node :: (innerNodes kinds node).flatMap (nodes kinds) := by
  rw [nodes, List.flatMap_subtype (g := nodes kinds) (fun _ _ => rfl), List.unattach_attach]

end

end Request

/-! ## Looking at one node after the other -/

namespace Constructors

/-- A registry that knows just the built-in kinds that `kinds` says, under the names it says. -/
def Knows (cs : Constructors) (kinds : String → Option Builtin) : Prop :=
  ∀ name, cs.find? name = (kinds name).map Builtin.construct

/-- The kind that has a name. -/
def kindOf? (name : String) : Option Builtin := Builtin.all.find? fun b => b.name = name

theorem knows_standard : standard.Knows kindOf? := by
  intro name
  cases hkind : kindOf? name with
  | some b =>
      have hname : b.name = name := by simpa using List.find?_some hkind
      rw [← hname, find?_standard]
      rfl
  | none =>
      cases hfind : standard.find? name with
      | none => rfl
      | some construct =>
          obtain ⟨b, hname, -⟩ := exists_of_find?_standard hfind
          have hall : b ∈ Builtin.all := by cases b <;> decide
          have := List.find?_eq_none.mp hkind b hall
          simp [hname] at this

/-- Registries of built-in kinds, whatever their names, are those of which it can be said what they
know. -/
theorem isBuiltin_iff_exists_knows {cs : Constructors} :
    cs.IsBuiltin ↔ ∃ kinds, cs.Knows kinds := by
  constructor
  · intro h
    have hkind : ∀ name, ∃ kind, cs.find? name = Option.map Builtin.construct kind := by
      intro name
      cases hfind : cs.find? name with
      | none => exact ⟨none, rfl⟩
      | some construct =>
          obtain ⟨b, rfl⟩ := h name construct hfind
          exact ⟨some b, rfl⟩
    exact ⟨fun name => (hkind name).choose, fun name => (hkind name).choose_spec⟩
  · rintro ⟨kinds, h⟩ name construct hfind
    rw [h name] at hfind
    obtain ⟨b, -, rfl⟩ := Option.map_eq_some_iff.mp hfind
    exact ⟨b, rfl⟩

end Constructors

namespace Request

variable (s : Surroundings)

/-- Has what is asked for apart from nodes. -/
def run : Request → Decoding Unit
  | .nothing | .filters _ => pure ()
  | .list kind name =>
    match s.files.readText (s.config.resolve name) with
    | .ok _ => pure ()
    | .error f => refuse (.unreadable kind.name (s.config.resolve name) f)
  | .holdings sources => s.loadEach sources

/-- Has what a setting asks for, and then reads the nodes it asks for. -/
def follow (read : Value → Decoding Filter) : Except NodeFault Request → Decoding Unit
  | .ok q => do
    q.run s
    forM q.inner fun node => (read node).effect
  | .error f => refuse f

variable {s} {read : Value → Decoding Filter}

/-! ### Settings of each kind -/

theorem effect_bare (b : Builtin) (f : Filter) (v : Value) :
    (bare b.name f s v fun node _ => read node).effect = follow s read (ofBare b v) := by
  cases v <;> rfl

theorem effect_named (b : Builtin) (make : List String → Filter) (v : Value) :
    (named b.name make s v fun node _ => read node).effect = follow s read (ofNames b v) := by
  rw [named, effect_map, ofNames]
  cases stringsOf v <;> rfl

theorem effect_identified (b : Builtin) (onLine : List Char → List String)
    (make : List String → Filter) (v : Value) :
    (identified b.name onLine make s v fun node _ => read node).effect =
      follow s read (ofIdentifiers b v) := by
  rw [identified, effect_map]
  cases v with
  | array items =>
      show (demand (.notStrings b.name) (stringsOf (.array items))).effect =
        follow s read (ofNames b (.array items))
      rw [ofNames]
      cases stringsOf (.array items) <;> rfl
  | null | bool _ | number _ | string _ | object _ =>
      unfold identifiers ofIdentifiers
      dsimp only
      cases IdentifierSetting.ofValue _ with
      | error f => rfl
      | ok ids =>
          obtain ⟨list, file | name⟩ := ids
          · rfl
          · rw [demand, pure_bind]
            dsimp only [Option.elim_some, follow, run, inner]
            cases s.files.readText (s.config.resolve name) <;> rfl

theorem effect_loadAll (merged : Registry) (names : List String) :
    (s.loadAll merged names).effect = s.loadEach names := by
  induction names generalizing merged with
  | nil => rfl
  | cons name names ih =>
      rw [Surroundings.loadAll, effect_bind, Surroundings.loadEach, List.forM_cons, effect_seq]
      exact bind_congr fun r => ih (merged.merge r)

theorem effect_loadSources {names : List String} (h : names ≠ []) :
    (loadSources s names).effect = s.loadEach names := by
  match names with
  | [] => exact absurd rfl h
  | [name] => exact (bind_pure _).symm
  | name :: next :: names => exact effect_loadAll _ _

theorem effect_held (v : Value) :
    (held s v fun node _ => read node).effect = follow s read (ofPlaces .holdings v) := by
  unfold ofPlaces
  cases hv : HoldingsSetting.ofValue v with
  | error f =>
      rw [held, hv]
      rfl
  | ok places =>
      dsimp only
      cases hurls : places.urls.find? fun url =>
          !(Text.after? Path.fileScheme.toList url.toList).isSome with
      | some url =>
          rw [held, hv, demand, pure_bind]
          simp only [hurls]
          rfl
      | none =>
          rw [Constructors.held_of_local hv hurls, effect_map]
          dsimp only
          split
          · next hnone =>
            rw [hnone]
            rfl
          · next hsome =>
            rw [effect_loadSources hsome]
            exact (bind_pure _).symm

theorem effect_combined (b : Builtin) (make : List Filter → Filter) (v : Value) :
    (combined b.name make s v fun node _ => read node).effect = follow s read (ofNodes b v) := by
  cases v with
  | array nodes =>
      rw [Constructors.combined_array, effect_map, effect_mapM]
      rfl
  | null | bool _ | number _ | string _ | object _ => rfl

theorem effect_negated (v : Value) :
    (negated s v fun node _ => read node).effect = follow s read (ofOneNode v) := by
  have hone : ∀ node, (do return Filter.not (← read node)).effect =
      follow s read (.ok (.filters [node])) := fun node => by
    rw [effect_map]
    exact (bind_pure _).symm
  cases v with
  | array nodes =>
      rcases nodes with - | ⟨node, - | ⟨next, nodes⟩⟩
      · rfl
      · exact hone node
      · rfl
  | null | bool _ | number _ | string _ | object _ => exact hone _

/-- Reading a setting of any kind has what the setting asks for by itself and then reads the nodes
inside of it. -/
theorem effect_construct (b : Builtin) (setting : Value) (read : Value → Decoding Filter) :
    (b.construct s setting fun node _ => read node).effect =
      follow s read (ofSetting b setting) := by
  cases b with
  | any => exact effect_bare .any .any setting
  | none => exact effect_bare .none .none setting
  | source => exact effect_named .source .source setting
  | collection => exact effect_named .collection .collection setting
  | package => exact effect_named .package .package setting
  | subject => exact effect_named .subject .subject setting
  | issn => exact effect_identified .issn _ _ setting
  | doi => exact effect_identified .doi _ _ setting
  | isbn => exact effect_identified .isbn _ _ setting
  | holdings => exact effect_held setting
  | and => exact effect_combined .and _ setting
  | or => exact effect_combined .or _ setting
  | not => exact effect_negated setting

/-! ### Nodes of a tree -/

section

variable (kinds : String → Option Builtin) (s : Surroundings)

/-- Looks at a node by itself. -/
def inspect (node : Value) : Decoding Unit :=
  match ofNode kinds node with
  | .ok q => q.run s
  | .error fault => throw fault

variable {kinds} {s} {cs : Constructors}

/-- Reading a node is looking at it and then reading the nodes right inside of it. -/
theorem effect_decode_eq_inspect (hcs : cs.Knows kinds) (node : Value) :
    (cs.decode s node).effect = (do
      inspect kinds s node
      forM (innerNodes kinds node) fun v => (cs.decode s v).effect) := by
  match node with
  | .object [(name, setting)] =>
    cases hname : kinds name with
    | none =>
        have hnode : ofNode kinds (.object [(name, setting)]) = .error (.unknownFilter name) := by
          rw [ofNode, hname]
        have hfind : cs.find? name = none := by rw [hcs name, hname]; rfl
        rw [Constructors.decode, inspect, hnode, hfind]
        rfl
    | some b =>
        have hnode : ofNode kinds (.object [(name, setting)]) =
            (ofSetting b setting).mapError (.invalidFilter none) := by rw [ofNode, hname]
        have hfind : cs.find? name = some b.construct := by rw [hcs name, hname]; rfl
        have hread : cs.decode s (.object [(name, setting)]) =
            b.construct s setting fun node _ => cs.decode s node := by
          rw [Constructors.decode]
          simp only [hfind]
        rw [hread, effect_construct, inspect, innerNodes, hnode]
        cases ofSetting b setting <;> rfl
  | .object [] | .object (_ :: _ :: _) | .null | .bool _ | .number _ | .string _ | .array _ =>
    unfold Constructors.decode
    rfl

/-- Reading a tree is looking at its nodes one after the other, by induction on its size. -/
theorem effect_decode (hcs : cs.Knows kinds) (node : Value) :
    (cs.decode s node).effect = forM (nodes kinds node) (inspect kinds s) := by
  induction hn : sizeOf node using Nat.strongRecOn generalizing node with
  | ind n ih =>
    rw [effect_decode_eq_inspect hcs, nodes_eq, List.forM_cons, forM_flatMap]
    refine bind_congr fun _ => forM_congr fun v hv => ih _ ?_ v rfl
    exact hn ▸ sizeOf_lt_of_mem_innerNodes kinds hv

end

end Request

end Holdings
