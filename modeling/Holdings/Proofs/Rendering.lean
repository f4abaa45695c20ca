import Mathlib
import Holdings.Proofs.Identifiers
import Holdings.Proofs.Nodes
import Holdings.Proofs.Reasons
/-!
# Filters read back

A filter that was read from a node is written as a node that says less: identifiers stand in it
that came from a file, and of the ways to name holdings only one is left. It is read back as the
same filter all the same, except that a leaf on holdings that was told not to be verbose may
become so, which no record notices. It also loads the same holdings in the same order, so the
filters of a configuration that share what they load can all be read back together
(`Tagger.ofValue_toJson`).
-/

namespace Holdings

open Json (Value)
open Decoding

/-! ## Settings as they are written -/

theorem readSettings_files (paths : List String) (setting : HoldingsSetting)
    (ms : List (String × Value)) :
    readSettings HoldingsSetting.fields setting (("files", .ofTexts paths) :: ms) =
      readSettings HoldingsSetting.fields { setting with files := paths } ms := by
  show (do
    let setting ← (do .ok { setting with files := ← stringsOf (.ofTexts paths) })
    readSettings HoldingsSetting.fields setting ms) = _
  rw [stringsOf_ofTexts]
  rfl

/-- The setting of a leaf on holdings names its sources, and says that it is verbose if it is. -/
theorem ofValue_leafSetting {leaf : HoldingsLeaf} (h : leaf.sources ≠ []) :
    ∃ setting, HoldingsSetting.ofValue (Filter.leafSetting leaf) = .ok setting ∧
      setting.urls = [] ∧ setting.sources = leaf.sources ∧
      setting.verbose = if leaf.verbose then some true else none := by
  obtain ⟨sources, registry, verbose⟩ := leaf
  match sources, verbose with
  | [], _ => exact absurd rfl h
  | [path], true => exact ⟨⟨some path, [], [], some true, false⟩, rfl, rfl, rfl, rfl⟩
  | [path], false => exact ⟨⟨some path, [], [], none, false⟩, rfl, rfl, rfl, rfl⟩
  | path :: path' :: paths, true =>
      exact ⟨⟨none, path :: path' :: paths, [], some true, false⟩, readSettings_files _ _ _, rfl,
        List.append_nil _, rfl⟩
  | path :: path' :: paths, false =>
      exact ⟨⟨none, path :: path' :: paths, [], none, false⟩, readSettings_files _ _ _, rfl,
        List.append_nil _, rfl⟩

/-! ## Reading what was written -/

namespace Constructors

variable {s : Surroundings} {loaded last : Cache}

/-- Nodes that are read from left to right are read back so. -/
theorem runFrom_mapM_toJson {nodes : List Value} {fs : List Filter}
    (ih : ∀ node ∈ nodes, ∀ (f : Filter) (loaded last : Cache),
      runFrom (standard.decode s node) loaded = (.ok f, last) →
      runFrom (standard.decode s f.toJson) loaded = (.ok (f.withVerbose s.config.verbose), last))
    (h : runFrom (nodes.mapM (standard.decode s)) loaded = (.ok fs, last)) :
    runFrom ((Filter.allToJson fs).mapM (standard.decode s)) loaded =
      (.ok (Filter.allWithVerbose s.config.verbose fs), last) := by
  induction nodes generalizing loaded fs with
  | nil =>
      cases h
      rfl
  | cons node nodes ihs =>
      rw [List.mapM_cons] at h
      obtain ⟨f, next, hf, h⟩ := runFrom_bind_eq_ok_iff.mp h
      obtain ⟨fs, next', hfs, h⟩ := runFrom_bind_eq_ok_iff.mp h
      cases h
      have hf' := ih node List.mem_cons_self f _ _ hf
      have hfs' := ihs (fun node hn => ih node (List.mem_cons_of_mem _ hn)) hfs
      rw [Filter.allToJson, List.mapM_cons, runFrom_bind_ok hf', runFrom_bind_ok hfs']
      rfl

/-- A leaf on holdings is read back by loading the same sources in the same order. -/
theorem runFrom_decode_leaf {sources : List String} {registry : Registry} (verbose : Bool)
    (h : runFrom (loadSources s sources) loaded = (.ok registry, last)) :
    runFrom (standard.decode s (Filter.holdings ⟨sources, registry, verbose⟩).toJson) loaded =
      (.ok ((Filter.holdings ⟨sources, registry, verbose⟩).withVerbose s.config.verbose),
        last) := by
  have hne : sources ≠ [] := ne_nil_of_loadSources h
  let leaf : HoldingsLeaf := ⟨sources, registry, verbose⟩
  have hne' : leaf.sources ≠ [] := hne
  obtain ⟨setting, hv, hurls, hsources, hverbose⟩ := ofValue_leafSetting hne'
  have hload : runFrom (loadSources s setting.sources) loaded = (.ok registry, last) := by
    rw [hsources, h]
  have hlocal : (setting.urls.find? fun url =>
      !(Text.after? Path.fileScheme.toList url.toList).isSome) = none := by
    rw [hurls]
    rfl
  have hheld : held s (Filter.leafSetting leaf) (fun node _ => standard.decode s node) = _ :=
    held_of_local hv hlocal
  have hdecode := decode_builtin (s := s) .holdings
    (Filter.leafSetting ⟨sources, registry, verbose⟩)
  show runFrom (standard.decode s (.object [(Builtin.holdings.name, _)])) loaded = _
  rw [hdecode]
  show runFrom (held s _ fun node _ => standard.decode s node) loaded = _
  rw [hheld, runFrom_bind_ok hload, hsources, hverbose]
  cases verbose <;> rfl

/-! ### Any node -/

/-- Filters are written as objects, so one that is negated needs no array around it. -/
theorem runFrom_decode_not {f g : Filter}
    (h : runFrom (standard.decode s f.toJson) loaded = (.ok g, last)) :
    runFrom (standard.decode s (Filter.not f).toJson) loaded = (.ok (.not g), last) := by
  have hobject : ∃ members, f.toJson = .object members := by
    cases f <;> exact ⟨_, rfl⟩
  exact runFrom_decode_negated hobject (.inl rfl) h

/-- A filter that was read is read back over the same holdings, and loads the same. -/
theorem runFrom_decode_toJson {node : Value} {f : Filter}
    (h : runFrom (standard.decode s node) loaded = (.ok f, last)) :
    runFrom (standard.decode s f.toJson) loaded =
      (.ok (f.withVerbose s.config.verbose), last) := by
  induction h using decode_induction with
  | @step b setting f loaded last hread hinner =>
    cases b with
    | any =>
        obtain ⟨-, -, rfl, rfl⟩ := exists_members_of_bare rfl hread
        exact runFrom_decode_bare (b := .any) rfl [] last
    | none =>
        obtain ⟨-, -, rfl, rfl⟩ := exists_members_of_bare rfl hread
        exact runFrom_decode_bare (b := .none) rfl [] last
    | source =>
        obtain ⟨names, -, rfl, rfl⟩ := exists_names_of_named rfl hread
        exact runFrom_decode_named (b := .source) rfl names last
    | collection =>
        obtain ⟨names, -, rfl, rfl⟩ := exists_names_of_named rfl hread
        exact runFrom_decode_named (b := .collection) rfl names last
    | package =>
        obtain ⟨names, -, rfl, rfl⟩ := exists_names_of_named rfl hread
        exact runFrom_decode_named (b := .package) rfl names last
    | subject =>
        obtain ⟨names, -, rfl, rfl⟩ := exists_names_of_named rfl hread
        exact runFrom_decode_named (b := .subject) rfl names last
    | issn =>
        obtain ⟨ids, -, rfl, rfl⟩ := exists_ids_of_identified rfl hread
        exact runFrom_decode_identified (b := .issn) rfl (Filter.ofIssns_distinct ids) last
    | doi =>
        obtain ⟨ids, -, rfl, rfl⟩ := exists_ids_of_identified rfl hread
        exact runFrom_decode_identified (b := .doi) rfl (Filter.ofDois_distinct ids) last
    | isbn =>
        obtain ⟨ids, -, rfl, rfl⟩ := exists_ids_of_identified rfl hread
        exact runFrom_decode_identified (b := .isbn) rfl (Filter.ofIsbns_distinct ids) last
    | holdings =>
        obtain ⟨hsetting, registry, -, -, hload, rfl⟩ := exists_setting_of_held hread
        exact runFrom_decode_leaf _ hload
    | and =>
        obtain ⟨nodes, fs, rfl, hfs, rfl⟩ := exists_nodes_of_combined rfl hread
        have hback := runFrom_mapM_toJson
          (fun node hm _ _ _ hg => hinner node (sizeOf_le_of_mem hm) hg) hfs
        exact runFrom_decode_combined (b := .and) rfl hback
    | or =>
        obtain ⟨nodes, fs, rfl, hfs, rfl⟩ := exists_nodes_of_combined rfl hread
        have hback := runFrom_mapM_toJson
          (fun node hm _ _ _ hg => hinner node (sizeOf_le_of_mem hm) hg) hfs
        exact runFrom_decode_combined (b := .or) rfl hback
    | not =>
        obtain ⟨node, g, hsetting, hg, rfl⟩ := exists_node_of_negated hread
        have hle : sizeOf node ≤ sizeOf setting := by
          rcases hsetting with rfl | rfl
          · exact Nat.le_refl _
          · exact sizeOf_le_of_mem List.mem_cons_self
        exact runFrom_decode_not (hinner node hle hg)

end Constructors

/-! ## Configurations -/

theorem Pairs.find?_map {κ α β : Type} [DecidableEq κ] (g : α → β) (k : κ)
    (ps : List (κ × α)) :
    find? k (ps.map fun p => (p.1, g p.2)) = (find? k ps).map g := by
  induction ps with
  | nil => rfl
  | cons p ps ih =>
      rw [List.map_cons, find?, find?, ih]
      split <;> rfl

namespace Tagger

variable {s : Surroundings}

theorem toList_insert {t : Tagger} {institution : String} (f : Filter)
    (h : institution ∉ t.institutions) :
    (t.insert institution f).filters.toList = t.filters.toList ++ [(institution, f)] :=
  Pairs.alter_of_not_mem h

theorem institutions_insert {t : Tagger} {institution : String} (f : Filter)
    (h : institution ∉ t.institutions) :
    (t.insert institution f).institutions = t.institutions ++ [institution] := by
  rw [institutions, Keyed.keys, toList_insert f h, List.map_append]
  rfl

/-- The filters of new institutions are added in their order. If they are written and read in
another place, they are added there in the same order, and the same holdings are loaded. -/
theorem exists_read_back {t t' : Tagger} {members : List (String × Value)} {loaded last : Cache}
    (hnew : (t.institutions ++ members.map Prod.fst).Nodup)
    (h : runFrom (decodeMembers .standard s t members) loaded = (.ok t', last)) :
    ∃ fs : List (String × Filter), t'.filters.toList = t.filters.toList ++ fs ∧
      ∀ u : Tagger, u.institutions = t.institutions →
        ∃ u', runFrom (decodeMembers .standard s u (fs.map fun p => (p.1, p.2.toJson))) loaded =
            (.ok u', last) ∧
          u'.filters.toList =
            u.filters.toList ++ fs.map fun p => (p.1, p.2.withVerbose s.config.verbose) := by
  induction members generalizing t loaded with
  | nil =>
      cases h
      exact ⟨[], (List.append_nil _).symm, fun u _ => ⟨u, rfl, (List.append_nil _).symm⟩⟩
  | cons m ms ih =>
      obtain ⟨institution, node⟩ := m
      have hout : institution ∉ t.institutions := by
        intro hin
        exact (List.nodup_append.mp hnew).2.2 _ hin _ List.mem_cons_self rfl
      cases hrun : runFrom (Constructors.standard.decode s node) loaded with
      | mk outcome next =>
        cases outcome with
        | error fault =>
            rw [decodeMembers_cons_error hrun] at h
            cases h
        | ok f =>
            rw [decodeMembers_cons_ok hrun] at h
            have hnew' : ((t.insert institution f).institutions ++ ms.map Prod.fst).Nodup := by
              rw [institutions_insert f hout, List.append_assoc]
              exact hnew
            obtain ⟨fs, hfs, hback⟩ := ih hnew' h
            refine ⟨(institution, f) :: fs, ?_, fun u hu => ?_⟩
            · rw [hfs, toList_insert f hout, List.append_assoc]
              rfl
            · have hout' : institution ∉ u.institutions := hu ▸ hout
              have hsame : (u.insert institution (f.withVerbose s.config.verbose)).institutions =
                  (t.insert institution f).institutions := by
                rw [institutions_insert _ hout', institutions_insert _ hout, hu]
              obtain ⟨u', hrun', hu'⟩ := hback _ hsame
              refine ⟨u', ?_, ?_⟩
              · rw [List.map_cons,
                  decodeMembers_cons_ok (Constructors.runFrom_decode_toJson hrun)]
                exact hrun'
              · rw [hu', toList_insert _ hout', List.append_assoc]
                rfl

/-- A configuration that was accepted is accepted again as it is written, with the same filters,
except that their leaves on holdings may have become verbose. -/
theorem ofValue_toJson {members : List (String × Value)} {t : Tagger}
    (hnames : (members.map Prod.fst).Nodup)
    (h : ofValue .standard s (.object members) = .ok t) :
    ∃ t', ofValue .standard s t.toJson = .ok t' ∧
      t'.filters.toList =
        t.filters.toList.map fun p => (p.1, p.2.withVerbose s.config.verbose) := by
  have hrun : runFrom (decodeMembers .standard s .empty members) .empty =
      (.ok t, (runFrom (decodeMembers .standard s .empty members) .empty).2) := Prod.ext h rfl
  obtain ⟨fs, hfs, hback⟩ := exists_read_back (t := .empty) hnames hrun
  obtain ⟨t', hrun', ht'⟩ := hback .empty rfl
  have hlist : t.filters.toList = fs := hfs
  refine ⟨t', ?_, ?_⟩
  · rw [toJson, hlist]
    exact congrArg Prod.fst hrun'
  · rw [hlist]
    exact ht'

end Tagger

/-! ## Filters that are built -/

namespace Filter

/-- The filters that are built from texts and from other such filters: no leaf asks holdings, and
none is of a kind that is brought along. -/
inductive Built : Filter → Prop where
  | any : Built .any
  | none : Built .none
  | source (ids : List String) : Built (.source ids)
  | collection (names : List String) : Built (.collection names)
  | package (names : List String) : Built (.package names)
  | subject (names : List String) : Built (.subject names)
  | ofIssns (ids : List String) : Built (.ofIssns ids)
  | ofDois (ids : List String) : Built (.ofDois ids)
  | ofIsbns (ids : List String) : Built (.ofIsbns ids)
  | and {fs : List Filter} : (∀ f ∈ fs, Built f) → Built (.and fs)
  | or {fs : List Filter} : (∀ f ∈ fs, Built f) → Built (.or fs)
  | not {f : Filter} : Built f → Built (.not f)

end Filter

namespace Constructors

variable {s : Surroundings}

theorem runFrom_mapM_built {fs : List Filter} (loaded : Cache)
    (ih : ∀ f ∈ fs, ∀ loaded, runFrom (standard.decode s f.toJson) loaded = (.ok f, loaded)) :
    runFrom ((Filter.allToJson fs).mapM (standard.decode s)) loaded = (.ok fs, loaded) := by
  induction fs with
  | nil => rfl
  | cons f fs ihs =>
      have hf := ih f List.mem_cons_self loaded
      have hfs := ihs fun g hg => ih g (List.mem_cons_of_mem _ hg)
      rw [Filter.allToJson, List.mapM_cons, runFrom_bind_ok hf, runFrom_bind_ok hfs]
      rfl

/-- A filter that is built is read back as itself. -/
theorem runFrom_decode_built {f : Filter} (h : f.Built) (loaded : Cache) :
    runFrom (standard.decode s f.toJson) loaded = (.ok f, loaded) := by
  induction h generalizing loaded with
  | any => exact runFrom_decode_bare (b := .any) rfl [] loaded
  | none => exact runFrom_decode_bare (b := .none) rfl [] loaded
  | source ids => exact runFrom_decode_named (b := .source) rfl ids loaded
  | collection names => exact runFrom_decode_named (b := .collection) rfl names loaded
  | package names => exact runFrom_decode_named (b := .package) rfl names loaded
  | subject names => exact runFrom_decode_named (b := .subject) rfl names loaded
  | ofIssns ids =>
      exact runFrom_decode_identified (b := .issn) rfl (Filter.ofIssns_distinct ids) loaded
  | ofDois ids =>
      exact runFrom_decode_identified (b := .doi) rfl (Filter.ofDois_distinct ids) loaded
  | ofIsbns ids =>
      exact runFrom_decode_identified (b := .isbn) rfl (Filter.ofIsbns_distinct ids) loaded
  | and _ ih => exact runFrom_decode_combined (b := .and) rfl (runFrom_mapM_built loaded ih)
  | or _ ih => exact runFrom_decode_combined (b := .or) rfl (runFrom_mapM_built loaded ih)
  | not _ ih => exact runFrom_decode_not (ih loaded)

end Constructors

namespace Tagger

/-- Writing keeps decisions. What a configuration with distinct institutions was accepted as is
accepted again as it is written, with the same institutions in the same order, and every filter
decides as before. A filter that is built without holdings and without kinds that are brought along
is read back, whatever has been loaded, as one that is written the same and decides the same. -/
theorem decisions_read_back (s : Surroundings) :
    (∀ (members : List (String × Value)) (t : Tagger), (members.map Prod.fst).Nodup →
      ofValue .standard s (.object members) = .ok t →
      ∃ t', ofValue .standard s t.toJson = .ok t' ∧ t'.institutions = t.institutions ∧
        ∀ institution f, t.get? institution = some f →
          ∃ f', t'.get? institution = some f' ∧ ∀ r now, f'.apply r now = f.apply r now) ∧
    ∀ f : Filter, f.Built → ∀ loaded,
      ∃ f', Constructors.standard.outcome s loaded f.toJson = .ok f' ∧ f'.toJson = f.toJson ∧
        ∀ r now, f'.apply r now = f.apply r now := by
  refine ⟨fun members t hnames h => ?_, fun f hf loaded => ?_⟩
  · obtain ⟨t', ht', hlist⟩ := ofValue_toJson hnames h
    refine ⟨t', ht', ?_, fun institution f hf => ?_⟩
    · rw [institutions, Keyed.keys, hlist, List.map_map]
      rfl
    · refine ⟨f.withVerbose s.config.verbose, ?_, fun r now => f.apply_withVerbose _ r now⟩
      rw [get?, Keyed.find?, hlist, Pairs.find?_map]
      exact congrArg (Option.map _) hf
  · exact ⟨f, congrArg Prod.fst (Constructors.runFrom_decode_built hf loaded), rfl,
      fun _ _ => rfl⟩

/-- A file without licences, and a configuration under which leaves are verbose unless they say
otherwise. -/
def emptyFile : Surroundings where
  files := { files := [(["a.tsv"], [])], directories := [], working := [] }
  config := { Config.standard with verbose := true }

/-- A list of serials that names one twice, and a leaf that is not verbose in an array by itself. -/
def twoInstitutions : List (String × Value) :=
  [("A", .object [("issn", .object [("list", .ofTexts ["1234567x", "1234-567X"])])]),
    ("B", .object [("not", .array
      [.object [("holdings", .object [("urls", .ofTexts ["file://a.tsv"]),
        ("verbose", .bool false)])]])])]

theorem decisions_read_back_twoInstitutions :
    (∃ t t', ofValue .standard emptyFile (.object twoInstitutions) = .ok t ∧
      ofValue .standard emptyFile t.toJson = .ok t' ∧ t'.institutions = t.institutions) ∧
    ∃ f', Constructors.standard.outcome emptyFile .empty
      (Filter.not (.ofIssns ["1234567x"])).toJson = .ok f' := by
  have hok : (ofValue .standard emptyFile (.object twoInstitutions)).isOk = true := by cbv
  refine ⟨?_, ?_⟩
  · cases h : ofValue .standard emptyFile (.object twoInstitutions) with
    | error fault =>
        rw [h] at hok
        cases hok
    | ok t =>
        obtain ⟨t', ht', hsame, -⟩ :=
          (decisions_read_back emptyFile).1 twoInstitutions t (by decide) h
        exact ⟨t, t', rfl, ht', hsame⟩
  · obtain ⟨f', hf', -⟩ := (decisions_read_back emptyFile).2 _ (.not (.ofIssns ["1234567x"])) .empty
    exact ⟨f', hf'⟩

end Tagger

end Holdings
