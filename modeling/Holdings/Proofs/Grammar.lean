import Holdings.Json.Draft
import Holdings.Proofs.Rendering
/-!
# Which nodes are filters

The nodes that the built-in kinds can be read from, without the filters that they are read as. A
kind says which shape its setting has: `Shaped` collects these shapes, and leaves open what may
stand for the file of a list of identifiers and what the setting of a leaf on holdings may be,
since these ask the files. Every node that is a filter has such a shape, and if it asks no files
then nothing but its shape decides (`Constructors.accepted_nodes`).

The places of holdings are documented as an object, but are also read from an array of the values
of its fields in their order.
-/

namespace Holdings

open Json (Draft Name Value)
open Decoding

/-! ## Values with distinct names -/

/-- No object in the value has two members of one name. -/
inductive Json.Value.NamesDistinct : Value → Prop
  | null : NamesDistinct .null
  | bool (b : Bool) : NamesDistinct (.bool b)
  | number (n : Json.Number) : NamesDistinct (.number n)
  | string (t : String) : NamesDistinct (.string t)
  | array {items : List Value} (h : ∀ v ∈ items, NamesDistinct v) : NamesDistinct (.array items)
  | object {members : List (String × Value)} (hnames : (members.map Prod.fst).Nodup)
      (h : ∀ m ∈ members, NamesDistinct m.2) : NamesDistinct (.object members)

namespace Json

theorem Scalar.namesDistinct_value (scalar : Scalar) : scalar.value.NamesDistinct := by
  cases scalar with
  | null => exact .null
  | bool b => exact .bool b
  | number n => exact .number n
  | string t => exact .string t

mutual
theorem Draft.namesDistinct_value {room : Nat} {v : Value} : ∀ {d : Draft},
    d.value room = .ok v → v.NamesDistinct
  | .leaf l, h => by
      cases hl : l.read with
      | error f =>
          rw [Draft.value, hl] at h
          cases h
      | ok scalar =>
          rw [Draft.value, hl] at h
          cases h
          exact scalar.namesDistinct_value
  | .list items ending, h => by
      rw [Draft.value] at h
      split at h
      · cases h
      · obtain ⟨vs, hvs, h⟩ := bind_eq_ok_iff.mp h
        obtain ⟨u, -, h⟩ := bind_eq_ok_iff.mp h
        cases h
        exact .array (namesDistinct_itemValues hvs)
  | .object members ending, h => by
      rw [Draft.value] at h
      split at h
      · cases h
      · obtain ⟨ms, hms, h⟩ := bind_eq_ok_iff.mp h
        obtain ⟨u, -, h⟩ := bind_eq_ok_iff.mp h
        cases h
        have hnone : (([] : List (String × Value)).map Prod.fst).Nodup := List.nodup_nil
        obtain ⟨hnames, hvalues⟩ :=
          namesDistinct_memberValues hnone (List.forall_mem_nil _) hms
        exact .object hnames hvalues
theorem namesDistinct_itemValues {room : Nat} {vs : List Value} : ∀ {ds : List Draft},
    itemValues room ds = .ok vs → ∀ v ∈ vs, v.NamesDistinct
  | [], h => by
      cases h
      exact List.forall_mem_nil _
  | d :: ds, h => by
      obtain ⟨v, hv, h⟩ := bind_eq_ok_iff.mp h
      obtain ⟨vs, hvs, h⟩ := bind_eq_ok_iff.mp h
      cases h
      exact List.forall_mem_cons.mpr
        ⟨Draft.namesDistinct_value hv, namesDistinct_itemValues hvs⟩
theorem namesDistinct_memberValues {room : Nat} {done ms : List (String × Value)}
    (hnames : (done.map Prod.fst).Nodup) (hdone : ∀ m ∈ done, m.2.NamesDistinct) :
    ∀ {ds : List (Name × Draft)}, memberValues room done ds = .ok ms →
      (ms.map Prod.fst).Nodup ∧ ∀ m ∈ ms, m.2.NamesDistinct
  | [], h => by
      cases h
      exact ⟨hnames, hdone⟩
  | (name, d) :: ds, h => by
      obtain ⟨name, -, h⟩ := bind_eq_ok_iff.mp h
      obtain ⟨v, hv, h⟩ := bind_eq_ok_iff.mp h
      have hvalue := Draft.namesDistinct_value hv
      exact namesDistinct_memberValues (Pairs.nodup_alter _ _ hnames)
        (Pairs.forall_mem_alter hdone fun _ => hvalue) h
end

/-- What a text says has distinct names. -/
theorem Value.namesDistinct_of_parse {text : String} {v : Value}
    (h : Value.parse text = .ok v) : v.NamesDistinct := by
  obtain ⟨v', hv', h⟩ := bind_eq_ok_iff.mp h
  split at h
  · cases h
  · cases h
    exact Draft.namesDistinct_value hv'

end Json

/-! ## Places of holdings -/

namespace HoldingsSetting

/-- What a member of the setting may be, as it is documented. Addresses have to be local. -/
inductive IsMember : String × Value → Prop
  | file (path : Option String) : IsMember ("file", .ofOption .string path)
  | files (paths : List String) : IsMember ("files", .ofTexts paths)
  | urls {urls : List String} (h : ∀ url ∈ urls, Path.fileScheme.toList <+: url.toList) :
      IsMember ("urls", .ofTexts urls)
  | verbose (b : Option Bool) : IsMember ("verbose", .ofOption .bool b)
  | compareByTitle (b : Bool) : IsMember ("compare-by-title", .bool b)

/-- The setting as it is documented: an object with such members, one of which names a source. -/
def Documented (v : Value) : Prop :=
  ∃ members, v = .object members ∧ (∀ m ∈ members, IsMember m) ∧ ∃ m ∈ members, NamesSource m

/-- The setting as it is read: also from an array of values that would be documented under the
names of the fields. -/
def Accepted (v : Value) : Prop :=
  Documented v ∨ ∃ items, v = .array items ∧ items.length ≤ fields.length ∧
    Documented (.object ((fields.map SettingField.name).zip items))

theorem documented_of_readSettings {members : List (String × Value)} {setting : HoldingsSetting}
    (hnames : (members.map Prod.fst).Nodup)
    (h : readSettings fields empty members = .ok setting)
    (hlocal : ∀ url ∈ setting.urls, Path.fileScheme.toList <+: url.toList)
    (hsources : setting.sources ≠ []) : Documented (.object members) := by
  refine ⟨members, rfl, fun m hm => ?_, ?_⟩
  · obtain ⟨before, after, hset, hurls⟩ := sets_of_readSettings hnames h m hm
    cases hset with
    | file path => exact .file path
    | files paths => exact .files paths
    | urls urls =>
        rw [hurls rfl] at hlocal
        exact .urls hlocal
    | verbose b => exact .verbose b
    | compareByTitle b => exact .compareByTitle b
  · rcases exists_namesSource_of_readSettings h hsources with hempty | hnamed
    · exact absurd rfl hempty
    · exact hnamed

theorem map_fst_zip_sublist {α β : Type} (as : List α) (bs : List β) :
    ((as.zip bs).map Prod.fst).Sublist as := by
  induction as generalizing bs with
  | nil => exact .slnil
  | cons a as ih =>
      cases bs with
      | nil => exact List.nil_sublist _
      | cons b bs => exact (ih bs).cons_cons a

theorem accepted_of_ofValue {v : Value} {setting : HoldingsSetting} (hv : v.NamesDistinct)
    (h : ofValue v = .ok setting)
    (hlocal : ∀ url ∈ setting.urls, Path.fileScheme.toList <+: url.toList)
    (hsources : setting.sources ≠ []) : Accepted v := by
  cases hv with
  | object hnames _ => exact .inl (documented_of_readSettings hnames h hlocal hsources)
  | @array items _ =>
      have hfind : ∀ f ∈ fields, (fields.find? fun g => g.name = f.name) = some f := by
        simp [fields]
      obtain ⟨hlength, h⟩ := (readPositions_eq_ok_iff hfind).mp h
      refine .inr ⟨items, rfl, hlength, documented_of_readSettings ?_ h hlocal hsources⟩
      have hnames : (fields.map SettingField.name).Nodup := by decide
      exact hnames.sublist (map_fst_zip_sublist _ _)
  | null | bool _ | number _ | string _ => cases h

end HoldingsSetting

/-! ## Nodes -/

/-- The nodes that have the shape of a filter, if `file` says what may stand for the file of a list
of identifiers, and `places` what the setting of a leaf on holdings may be. -/
inductive Shaped (file places : Value → Prop) : Value → Prop
  | bare {b : Builtin} (hb : b ∈ [Builtin.any, .none]) (members : List (String × Value)) :
      Shaped file places (.object [(b.name, .object members)])
  | named {b : Builtin} (hb : b ∈ [Builtin.source, .collection, .package, .subject])
      (names : List String) : Shaped file places (.object [(b.name, .ofTexts names)])
  | identified {b : Builtin} (hb : b ∈ [Builtin.issn, .isbn, .doi]) {v : Value}
      (hv : IdentifierSetting.IsSetting file v) : Shaped file places (.object [(b.name, v)])
  | held {v : Value} (hv : places v) : Shaped file places (.object [(Builtin.holdings.name, v)])
  | combined {b : Builtin} (hb : b ∈ [Builtin.and, .or]) {nodes : List Value}
      (h : ∀ node ∈ nodes, Shaped file places node) :
      Shaped file places (.object [(b.name, .array nodes)])
  | negated {node : Value} (h : Shaped file places node) :
      Shaped file places (.object [(Builtin.not.name, node)])
  | negatedOne {node : Value} (h : Shaped file places node) :
      Shaped file places (.object [(Builtin.not.name, .array [node])])

theorem Shaped.exists_members {file places : Value → Prop} {node : Value}
    (h : Shaped file places node) : ∃ members, node = .object members := by
  cases h <;> exact ⟨_, rfl⟩

/-- Only the shape of its places makes a leaf on holdings one. -/
theorem Shaped.places_of_holdings {file places : Value → Prop} {v : Value}
    (h : Shaped file places (.object [(Builtin.holdings.name, v)])) : places v := by
  have hne : ∀ b : Builtin, b ≠ .holdings → b.name ≠ Builtin.holdings.name := by
    intro b
    cases b <;> decide
  generalize hnode : Value.object [(Builtin.holdings.name, v)] = node at h
  cases h with
  | held hv =>
      cases hnode
      exact hv
  | bare hb _ | named hb _ | identified hb _ | combined hb _ =>
      have hname := (Prod.mk.inj (List.cons.inj (Value.object.inj hnode)).1).1
      refine absurd hname.symm (hne _ ?_)
      rintro rfl
      exact absurd hb (by decide)
  | negated _ | negatedOne _ =>
      have hname := (Prod.mk.inj (List.cons.inj (Value.object.inj hnode)).1).1
      exact absurd hname (by decide)

namespace Constructors

variable {s : Surroundings} {loaded last : Cache}

theorem exists_runFrom_of_mem_mapM {nodes : List Value} {fs : List Filter}
    (h : runFrom (nodes.mapM (standard.decode s)) loaded = (.ok fs, last)) :
    ∀ node ∈ nodes, ∃ f before after, runFrom (standard.decode s node) before = (.ok f, after) := by
  induction nodes generalizing loaded last fs with
  | nil => exact List.forall_mem_nil _
  | cons node nodes ih =>
      rw [List.mapM_cons] at h
      obtain ⟨f, next, hf, h⟩ := runFrom_bind_eq_ok_iff.mp h
      obtain ⟨fs, next', hfs, -⟩ := runFrom_bind_eq_ok_iff.mp h
      exact List.forall_mem_cons.mpr ⟨⟨f, loaded, next, hf⟩, ih hfs⟩

/-- What is read has the shape that its kind asks for, and so has every node inside. -/
theorem shaped_of_runFrom {node : Value} {f : Filter} (hdistinct : node.NamesDistinct)
    (h : runFrom (standard.decode s node) loaded = (.ok f, last)) :
    Shaped IdentifierSetting.IsFileName HoldingsSetting.Accepted node := by
  induction h using decode_induction with
  | @step b setting f loaded last hread hinner =>
    have hsetting : setting.NamesDistinct := by
      cases hdistinct with
      | object _ hvalues => exact hvalues (b.name, setting) List.mem_cons_self
    cases b with
    | any | none =>
        obtain ⟨members, rfl, -, -⟩ := exists_members_of_bare rfl hread
        exact .bare (by decide) members
    | source | collection | package | subject =>
        obtain ⟨names, rfl, -, -⟩ := exists_names_of_named rfl hread
        exact .named (by decide) names
    | issn | doi | isbn =>
        obtain ⟨-, hids, -, -⟩ := exists_ids_of_identified rfl hread
        exact .identified (by decide) hids
    | holdings =>
        obtain ⟨places, registry, hplaces, hlocal, hload, -⟩ := exists_setting_of_held hread
        exact .held (HoldingsSetting.accepted_of_ofValue hsetting hplaces hlocal
          (ne_nil_of_loadSources hload))
    | and | or =>
        obtain ⟨nodes, fs, rfl, hfs, -⟩ := exists_nodes_of_combined rfl hread
        refine .combined (by decide) fun node hm => ?_
        obtain ⟨g, before, after, hg⟩ := exists_runFrom_of_mem_mapM hfs node hm
        cases hsetting with
        | array hitems => exact hinner node (sizeOf_le_of_mem hm) hg (hitems node hm)
    | not =>
        obtain ⟨node, g, rfl | rfl, hg, -⟩ := exists_node_of_negated hread
        · exact .negated (hinner setting (Nat.le_refl _) hg hsetting)
        · cases hsetting with
          | array hitems =>
              have hm : node ∈ [node] := List.mem_cons_self
              exact .negatedOne (hinner node (sizeOf_le_of_mem hm) hg (hitems node hm))

theorem exists_runFrom_mapM {nodes : List Value}
    (h : ∀ node ∈ nodes, ∀ loaded, ∃ f,
      runFrom (standard.decode s node) loaded = (.ok f, loaded)) (loaded : Cache) :
    ∃ fs, runFrom (nodes.mapM (standard.decode s)) loaded = (.ok fs, loaded) := by
  induction nodes with
  | nil => exact ⟨[], rfl⟩
  | cons node nodes ih =>
      obtain ⟨hnode, hnodes⟩ := List.forall_mem_cons.mp h
      obtain ⟨f, hf⟩ := hnode loaded
      obtain ⟨fs, hfs⟩ := ih hnodes
      refine ⟨f :: fs, ?_⟩
      rw [List.mapM_cons, runFrom_bind_ok hf, runFrom_bind_ok hfs]
      rfl

/-- If a shape asks no files, it is enough for a node to have it. -/
theorem exists_runFrom_of_shaped {node : Value}
    (h : Shaped (fun _ => False) (fun _ => False) node) (loaded : Cache) :
    ∃ f, runFrom (standard.decode s node) loaded = (.ok f, loaded) := by
  induction h generalizing loaded with
  | bare hb members =>
      simp only [List.mem_cons, List.not_mem_nil, or_false] at hb
      rcases hb with rfl | rfl <;> exact ⟨_, runFrom_decode_bare rfl members loaded⟩
  | named hb names =>
      simp only [List.mem_cons, List.not_mem_nil, or_false] at hb
      rcases hb with rfl | rfl | rfl | rfl <;>
        exact ⟨_, runFrom_decode_named rfl names loaded⟩
  | identified hb hv =>
      simp only [List.mem_cons, List.not_mem_nil, or_false] at hb
      rcases hb with rfl | rfl | rfl <;> exact exists_runFrom_decode_identified rfl hv loaded
  | held hv => exact hv.elim
  | combined hb h ih =>
      obtain ⟨fs, hfs⟩ := exists_runFrom_mapM ih loaded
      simp only [List.mem_cons, List.not_mem_nil, or_false] at hb
      rcases hb with rfl | rfl <;> exact ⟨_, runFrom_decode_combined rfl hfs⟩
  | negated h ih =>
      obtain ⟨f, hf⟩ := ih loaded
      exact ⟨.not f, runFrom_decode_negated h.exists_members (.inl rfl) hf⟩
  | negatedOne h ih =>
      obtain ⟨f, hf⟩ := ih loaded
      exact ⟨.not f, runFrom_decode_negated h.exists_members (.inr rfl) hf⟩

/-- The grammar of nodes. Whatever the files are and whatever has been loaded, a node that is
accepted has the shape of a filter, in which the places of holdings are an object as documented or
an array of the values of its fields; and a node without holdings and without files of identifiers
that has the shape of a filter is accepted. -/
theorem accepted_nodes (s : Surroundings) (loaded : Cache) (node : Value) :
    (node.NamesDistinct → (∃ f, standard.outcome s loaded node = .ok f) →
      Shaped IdentifierSetting.IsFileName HoldingsSetting.Accepted node) ∧
    (Shaped (fun _ => False) (fun _ => False) node →
      ∃ f, standard.outcome s loaded node = .ok f) := by
  refine ⟨fun hdistinct h => ?_, fun h => ?_⟩
  · obtain ⟨f, hf⟩ := h
    exact shaped_of_runFrom hdistinct
      (Prod.ext hf rfl : runFrom (standard.decode s node) loaded = (.ok f, _))
  · obtain ⟨f, hf⟩ := exists_runFrom_of_shaped (s := s) h loaded
    exact ⟨f, congrArg Prod.fst hf⟩

/-- The opposite of a leaf on holdings, in an array by itself. -/
def withPlaces : Value :=
  .object [("not", .array [.object [("holdings", .object [("urls", .ofTexts ["file://a.tsv"]),
    ("verbose", .null)])]])]

/-- Two leaves that ask no files. -/
def withoutFiles : Value :=
  .object [("and", .array [.object [("any", .object [])],
    .object [("issn", .object [("list", .ofTexts ["1234-5678"])])]])]

theorem accepted_nodes_withPlaces :
    Shaped IdentifierSetting.IsFileName HoldingsSetting.Accepted withPlaces ∧
      ∃ f, standard.outcome Tagger.emptyFile .empty withoutFiles = .ok f := by
  have hdistinct : withPlaces.NamesDistinct := by
    have hnode : Value.parse withPlaces.text = .ok withPlaces := by cbv
    exact Json.Value.namesDistinct_of_parse hnode
  have hok : (standard.outcome Tagger.emptyFile .empty withPlaces).isOk = true := by cbv
  have haccepted : ∃ f, standard.outcome Tagger.emptyFile .empty withPlaces = .ok f := by
    cases h : standard.outcome Tagger.emptyFile .empty withPlaces with
    | ok f => exact ⟨f, rfl⟩
    | error fault =>
        rw [h] at hok
        cases hok
  have hshaped : Shaped (fun _ => False) (fun _ => False) withoutFiles := by
    refine .combined (b := .and) (by decide) (List.forall_mem_cons.mpr ⟨?_, ?_⟩)
    · exact .bare (b := .any) (by decide) []
    · refine List.forall_mem_singleton.mpr (.identified (b := .issn) (by decide) ?_)
      exact .object (List.forall_mem_singleton.mpr (.list ["1234-5678"]))
  exact ⟨(accepted_nodes Tagger.emptyFile .empty withPlaces).1 hdistinct haccepted,
    (accepted_nodes Tagger.emptyFile .empty withoutFiles).2 hshaped⟩

/-- A leaf whose place is the only item of an array, not a member of an object. -/
def positional : Value := .object [("holdings", .ofTexts ["a.tsv"])]

theorem positional_accepted_undocumented :
    positional.NamesDistinct ∧
      (standard.outcome Tagger.emptyFile .empty positional).isOk = true ∧
      ¬ Shaped IdentifierSetting.IsFileName HoldingsSetting.Documented positional := by
  refine ⟨?_, by cbv, fun h => ?_⟩
  · have hnode : Value.parse positional.text = .ok positional := by cbv
    exact Json.Value.namesDistinct_of_parse hnode
  · obtain ⟨members, hmembers, -⟩ := h.places_of_holdings
    cases hmembers

end Constructors

end Holdings
