import Holdings.Proofs.Decoding
import Holdings.Proofs.Settings
/-!
# Nodes of every kind

For every built-in kind, what its setting must have been if a filter was read from it, and what
filter that is, in terms of the nodes and the sources inside of the setting; and for most kinds,
which settings can always be read.
-/

namespace Holdings

open Json (Value)
open Decoding

/-- The licences in the sources of a leaf. -/
def loadSources (s : Surroundings) : List String → Decoding Registry
  | [] => refuse .noSource
  | [name] => s.load name
  | names => s.loadAll .empty names

namespace Constructors

variable {s : Surroundings} {loaded last : Cache}

/-! ## Leaves without holdings -/

section

variable {b : Builtin} {setting : Value} {f : Filter}

theorem exists_members_of_bare {kind : String} {g : Filter} (hb : b.construct = bare kind g)
    (h : runFrom (b.construct s setting fun node _ => standard.decode s node) loaded =
      (.ok f, last)) :
    ∃ members, setting = .object members ∧ f = g ∧ last = loaded := by
  rw [hb] at h
  cases setting with
  | object members =>
      cases h
      exact ⟨members, rfl, rfl, rfl⟩
  | null | bool _ | number _ | string _ | array _ => cases h

theorem runFrom_decode_bare {kind : String} {f : Filter} (hb : b.construct = bare kind f)
    (members : List (String × Value)) (loaded : Cache) :
    runFrom (standard.decode s (.object [(b.name, .object members)])) loaded =
      (.ok f, loaded) := by
  rw [decode_builtin, hb]
  rfl

theorem exists_names_of_named {kind : String} {make : List String → Filter}
    (hb : b.construct = named kind make)
    (h : runFrom (b.construct s setting fun node _ => standard.decode s node) loaded =
      (.ok f, last)) :
    ∃ names, setting = .ofTexts names ∧ f = make names ∧ last = loaded := by
  rw [hb] at h
  obtain ⟨names, next, hnames, hmake⟩ := runFrom_bind_eq_ok_iff.mp h
  obtain ⟨htexts, rfl⟩ := runFrom_demand_eq_ok_iff.mp hnames
  cases hmake
  exact ⟨names, stringsOf_eq_ok_iff.mp htexts, rfl, rfl⟩

theorem runFrom_decode_named {kind : String} {make : List String → Filter}
    (hb : b.construct = named kind make) (names : List String) (loaded : Cache) :
    runFrom (standard.decode s (.object [(b.name, .ofTexts names)])) loaded =
      (.ok (make names), loaded) := by
  rw [decode_builtin, hb, named, stringsOf_ofTexts]
  rfl

/-- Lists of identifiers do not load holdings, also those that come from a file. -/
theorem isSetting_of_identifiers {kind : String} {onLine : List Char → List String} {v : Value}
    {ids : List String} (h : runFrom (identifiers s kind onLine v) loaded = (.ok ids, last)) :
    IdentifierSetting.IsSetting IdentifierSetting.IsFileName v ∧ last = loaded := by
  unfold identifiers at h
  split at h
  · obtain ⟨htexts, rfl⟩ := runFrom_demand_eq_ok_iff.mp h
    rw [stringsOf_eq_ok_iff.mp htexts]
    exact ⟨.texts ids, rfl⟩
  · obtain ⟨setting, next, hsetting, hread⟩ := runFrom_bind_eq_ok_iff.mp h
    obtain ⟨hv, rfl⟩ := runFrom_demand_eq_ok_iff.mp hsetting
    refine ⟨IdentifierSetting.isSetting_of_ofValue hv, ?_⟩
    split at hread
    · cases hread
      rfl
    · dsimp only at hread
      split at hread
      · cases hread
      · cases hread
        rfl

theorem exists_ids_of_identified {kind : String} {onLine : List Char → List String}
    {make : List String → Filter} (hb : b.construct = identified kind onLine make)
    (h : runFrom (b.construct s setting fun node _ => standard.decode s node) loaded =
      (.ok f, last)) :
    ∃ ids, IdentifierSetting.IsSetting IdentifierSetting.IsFileName setting ∧ f = make ids ∧
      last = loaded := by
  rw [hb] at h
  obtain ⟨ids, next, hids, hmake⟩ := runFrom_bind_eq_ok_iff.mp h
  obtain ⟨hsetting, rfl⟩ := isSetting_of_identifiers hids
  cases hmake
  exact ⟨ids, hsetting, rfl, rfl⟩

/-- A leaf keeps the identifiers it was made from in their normal form. They are read back as they
are kept, so it is enough that the kept ones make the same leaf. -/
theorem runFrom_decode_identified {kind : String} {onLine : List Char → List String}
    {make : List String → Filter} (hb : b.construct = identified kind onLine make)
    {ids kept : List String} (hkept : make kept = make ids) (loaded : Cache) :
    runFrom (standard.decode s (.object [(b.name, .ofTexts kept)])) loaded =
      (.ok (make ids), loaded) := by
  rw [decode_builtin, hb, ← hkept]
  show runFrom (do return make (← demand (.notStrings kind) (stringsOf (.ofTexts kept))))
    loaded = _
  rw [stringsOf_ofTexts]
  rfl

theorem identifiers_of_lists (kind : String) (onLine : List Char → List String)
    {members : List (String × Value)} {ids : List String}
    (h : readSettings IdentifierSetting.fields ⟨[], none⟩ members = .ok ⟨ids, none⟩) :
    identifiers s kind onLine (.object members) = pure ids := by
  have hread : demand (.shape kind) (IdentifierSetting.ofValue (.object members)) =
      pure ⟨ids, none⟩ := by
    rw [IdentifierSetting.ofValue, h]
    rfl
  unfold identifiers
  simp only [hread, pure_bind]

/-- Lists that do not name a file are read whatever the files are. -/
theorem exists_runFrom_decode_identified {kind : String} {onLine : List Char → List String}
    {make : List String → Filter} (hb : b.construct = identified kind onLine make)
    (h : IdentifierSetting.IsSetting (fun _ => False) setting) (loaded : Cache) :
    ∃ f, runFrom (standard.decode s (.object [(b.name, setting)])) loaded = (.ok f, loaded) := by
  cases h with
  | texts ids => exact ⟨make ids, runFrom_decode_identified hb rfl loaded⟩
  | @object members hmembers =>
      obtain ⟨ids, hids⟩ := IdentifierSetting.exists_readSettings_of_lists hmembers []
      refine ⟨make ids, ?_⟩
      rw [decode_builtin, hb, identified, identifiers_of_lists kind onLine hids]
      rfl

end

/-! ## Leaves on holdings -/

theorem held_of_local {v : Value} {setting : HoldingsSetting}
    {read : (node : Value) → sizeOf node ≤ sizeOf v → Decoding Filter}
    (hv : HoldingsSetting.ofValue v = .ok setting)
    (hurls : (setting.urls.find? fun url =>
      !(Text.after? Path.fileScheme.toList url.toList).isSome) = none) :
    held s v read = (do
      let registry ← loadSources s setting.sources
      return .holdings ⟨setting.sources, registry, setting.verbose.getD s.config.verbose⟩) := by
  have hread : demand (.shape "holdings") (HoldingsSetting.ofValue v) = pure setting := by
    rw [hv]
    rfl
  unfold held
  rw [hread, pure_bind]
  simp only [hurls]
  rcases setting.sources with - | ⟨name, - | ⟨next, names⟩⟩
  · rfl
  · rfl
  · rfl

/-- What a leaf on holdings is, if it can be read: its sources in order, with their licences. All
of its addresses are local. -/
theorem exists_setting_of_held {v : Value} {f : Filter}
    (h : runFrom (held s v fun node _ => standard.decode s node) loaded = (.ok f, last)) :
    ∃ (setting : HoldingsSetting) (registry : Registry),
      HoldingsSetting.ofValue v = .ok setting ∧
      (∀ url ∈ setting.urls, Path.fileScheme.toList <+: url.toList) ∧
      runFrom (loadSources s setting.sources) loaded = (.ok registry, last) ∧
      f = .holdings ⟨setting.sources, registry, setting.verbose.getD s.config.verbose⟩ := by
  obtain ⟨setting, next, hsetting, hrest⟩ := runFrom_bind_eq_ok_iff.mp h
  obtain ⟨hv, rfl⟩ := runFrom_demand_eq_ok_iff.mp hsetting
  cases hurls : setting.urls.find? fun url =>
      !(Text.after? Path.fileScheme.toList url.toList).isSome with
  | some url =>
      rw [hurls] at hrest
      cases hrest
  | none =>
      rw [held_of_local hv hurls] at h
      obtain ⟨registry, next, hload, hf⟩ := runFrom_bind_eq_ok_iff.mp h
      cases hf
      refine ⟨setting, registry, hv, fun url hurl => ?_, hload, rfl⟩
      have hne : Text.after? Path.fileScheme.toList url.toList ≠ none := by
        simpa using List.find?_eq_none.mp hurls url hurl
      obtain ⟨rest, hrest⟩ := Option.ne_none_iff_exists'.mp hne
      exact ⟨rest, (Text.after?_eq_some_iff.mp hrest).symm⟩

theorem ne_nil_of_loadSources {sources : List String} {registry : Registry}
    (h : runFrom (loadSources s sources) loaded = (.ok registry, last)) : sources ≠ [] := by
  rintro rfl
  cases h

/-! ## Combinations -/

theorem mapM_attach (read : Value → Decoding Filter) (nodes : List Value) :
    (nodes.attach.mapM fun node => read node.1) = nodes.mapM read := by
  have h := List.mapM_map (m := Decoding) (f := fun node : { node // node ∈ nodes } => node.1)
    (g := read) (l := nodes.attach)
  rw [List.attach_map_subtype_val] at h
  exact h.symm

theorem combined_array (kind : String) (make : List Filter → Filter)
    (read : Value → Decoding Filter) (nodes : List Value) :
    combined kind make s (.array nodes) (fun node _ => read node) =
      (do return make (← nodes.mapM read)) := by
  rw [← mapM_attach]
  rfl

section

variable {b : Builtin} {setting : Value} {f : Filter}

theorem exists_nodes_of_combined {kind : String} {make : List Filter → Filter}
    (hb : b.construct = combined kind make)
    (h : runFrom (b.construct s setting fun node _ => standard.decode s node) loaded =
      (.ok f, last)) :
    ∃ nodes fs, setting = .array nodes ∧
      runFrom (nodes.mapM (standard.decode s)) loaded = (.ok fs, last) ∧ f = make fs := by
  rw [hb] at h
  cases setting with
  | array nodes =>
      rw [combined_array] at h
      obtain ⟨fs, next, hfs, hmake⟩ := runFrom_bind_eq_ok_iff.mp h
      cases hmake
      exact ⟨nodes, fs, rfl, hfs, rfl⟩
  | null | bool _ | number _ | string _ | object _ => cases h

theorem runFrom_decode_combined {kind : String} {make : List Filter → Filter}
    {nodes : List Value} {fs : List Filter} (hb : b.construct = combined kind make)
    (h : runFrom (nodes.mapM (standard.decode s)) loaded = (.ok fs, last)) :
    runFrom (standard.decode s (.object [(b.name, .array nodes)])) loaded =
      (.ok (make fs), last) := by
  rw [decode_builtin, hb, combined_array, runFrom_bind_ok h]
  rfl

theorem exists_node_of_negated
    (h : runFrom (negated s setting fun node _ => standard.decode s node) loaded = (.ok f, last)) :
    ∃ node g, (setting = node ∨ setting = .array [node]) ∧
      runFrom (standard.decode s node) loaded = (.ok g, last) ∧ f = .not g := by
  unfold negated at h
  split at h
  · next node =>
    obtain ⟨g, next, hg, hmake⟩ := runFrom_bind_eq_ok_iff.mp h
    cases hmake
    exact ⟨node, g, .inr rfl, hg, rfl⟩
  · cases h
  · obtain ⟨g, next, hg, hmake⟩ := runFrom_bind_eq_ok_iff.mp h
    cases hmake
    exact ⟨_, g, .inl rfl, hg, rfl⟩

/-- A node that is negated, which has to be an object, may stand in an array by itself. -/
theorem runFrom_decode_negated {node : Value} {g : Filter}
    (hnode : ∃ members, node = .object members)
    (hsetting : setting = node ∨ setting = .array [node])
    (h : runFrom (standard.decode s node) loaded = (.ok g, last)) :
    runFrom (standard.decode s (.object [(Builtin.not.name, setting)])) loaded =
      (.ok (.not g), last) := by
  obtain ⟨members, rfl⟩ := hnode
  rw [decode_builtin]
  have hneg : (Builtin.not.construct s setting fun node _ => standard.decode s node) =
      (do return Filter.not (← standard.decode s (.object members))) := by
    rcases hsetting with rfl | rfl <;> rfl
  rw [hneg, runFrom_bind_ok h]
  rfl

end

/-! ## Nodes inside of nodes -/

/-- What holds of every node that is read, if it holds of a kind with its setting as soon as it
holds of all nodes that are read inside of the setting. -/
@[elab_as_elim]
theorem decode_induction {motive : ∀ (node : Value) (f : Filter) (loaded last : Cache),
      runFrom (standard.decode s node) loaded = (.ok f, last) → Prop}
    (step : ∀ {b : Builtin} {setting : Value} {f : Filter} {loaded last : Cache}
      (hread : runFrom (b.construct s setting fun node _ => standard.decode s node) loaded =
        (.ok f, last)),
      (∀ inner, sizeOf inner ≤ sizeOf setting → ∀ {g : Filter} {before after : Cache}
        (hg : runFrom (standard.decode s inner) before = (.ok g, after)),
          motive inner g before after hg) →
      motive (.object [(b.name, setting)]) f loaded last
        ((congrArg (fun x => runFrom x loaded) (decode_builtin b setting)).trans hread))
    {node : Value} {f : Filter} {loaded last : Cache}
    (h : runFrom (standard.decode s node) loaded = (.ok f, last)) :
    motive node f loaded last h := by
  induction hn : sizeOf node using Nat.strongRecOn generalizing node f loaded last with
  | ind n ih =>
    obtain ⟨b, setting, rfl, hread⟩ := exists_builtin_of_runFrom h
    refine step hread fun inner hle g before after hg => ih _ ?_ hg rfl
    simp only [← hn, Value.object.sizeOf_spec, List.cons.sizeOf_spec, List.nil.sizeOf_spec,
      Prod.mk.sizeOf_spec]
    omega

end Constructors

end Holdings
