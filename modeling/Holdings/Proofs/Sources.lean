import Holdings.Proofs.Cache
import Holdings.Proofs.Merging
import Holdings.Proofs.Rendering
/-!
# Holdings from several sources

A leaf on holdings may name several sources, whose licences it puts together. A merged registry
covers what one of its parts covers (`Registry.coversAny_mergeAll`), and the sources are loaded one
after the other, which is also how the nodes of a combination are read. So the leaf and the
combination of one leaf for each source are the same computation but for what they make of the
registries (`decode_heldInAll`, `decode_heldInOneOf`): they load the same files, fail at the same
one, and pass the same records (`passes_same_records`).
-/

namespace Holdings

open Json (Value)
open Decoding

/-! ## Asking what was put together -/

namespace Registry

variable {ids : List String} {target : Signature} {now : Instant}

/-- Registries put together from left to right. -/
def mergeAll (rs : List Registry) : Registry := rs.foldl merge .empty

theorem coversAny_empty : empty.coversAny ids target now = false :=
  Bool.eq_false_iff.mpr fun h => by
    obtain ⟨id, -, l, hl, -⟩ := coversAny_iff.mp h
    exact List.not_mem_nil hl

theorem coversAny_foldl_merge (merged : Registry) (rs : List Registry) :
    (rs.foldl merge merged).coversAny ids target now =
      (merged.coversAny ids target now || rs.any fun r => r.coversAny ids target now) := by
  induction rs generalizing merged with
  | nil => exact (Bool.or_false _).symm
  | cons r rs ih => rw [List.foldl_cons, ih, coversAny_merge, List.any_cons, Bool.or_assoc]

theorem coversAny_mergeAll (rs : List Registry) :
    (mergeAll rs).coversAny ids target now = rs.any fun r => r.coversAny ids target now := by
  rw [mergeAll, coversAny_foldl_merge, coversAny_empty, Bool.false_or]

end Registry

namespace Filter

theorem applyAny_eq_any (r : Record) (now : Instant) (fs : List Filter) :
    applyAny r now fs = fs.any (apply r now) := by
  induction fs with
  | nil => rfl
  | cons f fs ih => rw [applyAny, ih, List.any_cons]

/-- A leaf on registries that were put together passes what one of the leaves on them passes. -/
theorem apply_merged (leaves : List HoldingsLeaf) (sources : List String) (verbose : Bool)
    (r : Record) (now : Instant) :
    apply r now (.holdings ⟨sources, Registry.mergeAll (leaves.map HoldingsLeaf.registry),
      verbose⟩) = apply r now (.or (leaves.map .holdings)) := by
  have hleaf : ∀ leaf : HoldingsLeaf, apply r now (.holdings leaf) =
      leaf.registry.coversAny r.serials r.signature now := fun leaf => by
    rw [apply, leaf.covers_eq]
  have hany : apply r now (.or (leaves.map .holdings)) =
      leaves.any fun leaf => apply r now (.holdings leaf) := by
    rw [apply, applyAny_eq_any, List.any_map]
    rfl
  rw [hany, hleaf, Registry.coversAny_mergeAll, List.any_map]
  simp only [hleaf]
  rfl

end Filter

/-! ## Loading the sources -/

namespace Surroundings

variable (s : Surroundings)

/-- The leaf on one source. -/
def leafOn (name : String) : Decoding HoldingsLeaf := do
  return ⟨[name], ← s.load name, s.config.verbose⟩

theorem loadAll_eq (merged : Registry) (names : List String) :
    s.loadAll merged names = (do
      let leaves ← names.mapM s.leafOn
      return (leaves.map HoldingsLeaf.registry).foldl Registry.merge merged) := by
  induction names generalizing merged with
  | nil => rfl
  | cons name names ih =>
      rw [loadAll, List.mapM_cons]
      simp only [ih, leafOn, bind_assoc, pure_bind, List.map_cons, List.foldl_cons]

theorem loadSources_eq {names : List String} (h : names ≠ []) :
    loadSources s names = (do
      let leaves ← names.mapM s.leafOn
      return Registry.mergeAll (leaves.map HoldingsLeaf.registry)) := by
  rcases names with - | ⟨name, - | ⟨next, names⟩⟩
  · exact absurd rfl h
  · -- One registry is not merged with anything; that the empty one in front changes nothing is
    -- what makes it the same.
    rw [List.mapM_cons, List.mapM_nil]
    simp only [leafOn, bind_assoc, pure_bind, List.map_cons, List.map_nil, Registry.mergeAll,
      List.foldl_cons, List.foldl_nil, Registry.empty_merge, bind_pure]
    rfl
  · exact s.loadAll_eq .empty (name :: next :: names)

end Surroundings

/-! ## One leaf and many -/

namespace Constructors

/-- Filters on the holdings in one file each, of which one has to let a record pass. -/
def heldInOneOf (paths : List String) : Value := .object [("or", .array (paths.map heldIn))]

variable {cs : Constructors} {s : Surroundings}

theorem decode_heldIn (hheld : cs.find? "holdings" = some held) (path : String) :
    cs.decode s (heldIn path) = (do return .holdings (← s.leafOn path)) := by
  have hv : HoldingsSetting.ofValue (.object [("file", .string path)]) =
      .ok ⟨some path, [], [], none, false⟩ := rfl
  unfold heldIn Constructors.decode
  simp only [hheld]
  rw [held_of_local hv rfl]
  show (s.load path >>= _) = _
  simp only [Surroundings.leafOn, bind_assoc, pure_bind]
  rfl

theorem decode_heldInAll (hheld : cs.find? "holdings" = some held) {paths : List String}
    (h : paths ≠ []) :
    cs.decode s (heldInAll paths) = (do
      let leaves ← paths.mapM s.leafOn
      return .holdings ⟨paths, Registry.mergeAll (leaves.map HoldingsLeaf.registry),
        s.config.verbose⟩) := by
  have hv : HoldingsSetting.ofValue (.object [("files", .ofTexts paths)]) =
      .ok ⟨none, paths, [], none, false⟩ := readSettings_files _ _ _
  have hsources : HoldingsSetting.sources ⟨none, paths, [], none, false⟩ = paths :=
    List.append_nil _
  unfold heldInAll Constructors.decode
  simp only [hheld]
  rw [held_of_local hv rfl, hsources, s.loadSources_eq h]
  simp only [bind_assoc, pure_bind]
  rfl

theorem decode_heldInOneOf (hheld : cs.find? "holdings" = some held)
    (hor : cs.find? "or" = some (combined "or" .or)) (paths : List String) :
    cs.decode s (heldInOneOf paths) = (do
      let leaves ← paths.mapM s.leafOn
      return .or (leaves.map .holdings)) := by
  have hleaves : (paths.map heldIn).mapM (cs.decode s) = (do
      let leaves ← paths.mapM s.leafOn
      return leaves.map .holdings) := by
    induction paths with
    | nil => rfl
    | cons path paths ih =>
        rw [List.map_cons, List.mapM_cons, List.mapM_cons, ih, decode_heldIn hheld]
        simp only [bind_assoc, pure_bind, List.map_cons]
  unfold heldInOneOf Constructors.decode
  simp only [hor]
  rw [combined_array, hleaves]
  simp only [bind_assoc, pure_bind]


/-- Holdings that are put together cover what one of them covers. So a leaf on several files and
the combination of one leaf for each of them are read alike, whatever had been loaded before: they
fail with the same fault, or they give filters that pass the same records at all times, and what
has been loaded then is the same. -/
theorem passes_same_records :
    (∀ (rs : List Registry) (ids : List String) (target : Signature) (now : Instant),
      (Registry.mergeAll rs).coversAny ids target now = true ↔
        ∃ r ∈ rs, r.coversAny ids target now = true) ∧
    ∀ (cs : Constructors) (s : Surroundings) (loaded : Cache) (paths : List String),
      cs.find? "holdings" = some held → cs.find? "or" = some (combined "or" .or) → paths ≠ [] →
      ∃ last,
        (∃ fault, runFrom (cs.decode s (heldInAll paths)) loaded = (.error fault, last) ∧
          runFrom (cs.decode s (heldInOneOf paths)) loaded = (.error fault, last)) ∨
        ∃ f g, runFrom (cs.decode s (heldInAll paths)) loaded = (.ok f, last) ∧
          runFrom (cs.decode s (heldInOneOf paths)) loaded = (.ok g, last) ∧
          ∀ r now, f.apply r now = g.apply r now := by
  refine ⟨fun rs ids target now => ?_, fun cs s loaded paths hheld hor hne => ?_⟩
  · rw [Registry.coversAny_mergeAll, List.any_eq_true]
  · rw [decode_heldInAll hheld hne, decode_heldInOneOf hheld hor]
    cases hleaves : runFrom (paths.mapM s.leafOn) loaded with
    | mk outcome last =>
      refine ⟨last, ?_⟩
      cases outcome with
      | error fault =>
          exact .inl ⟨fault, runFrom_bind_error hleaves _, runFrom_bind_error hleaves _⟩
      | ok leaves =>
          exact .inr ⟨_, _, runFrom_bind_ok hleaves _, runFrom_bind_ok hleaves _,
            Filter.apply_merged leaves paths s.config.verbose⟩

theorem passes_same_records_oneFile :
    standard.find? "holdings" = some held ∧ standard.find? "or" = some (combined "or" .or) ∧
      ["a.tsv", "file://a.tsv"] ≠ [] ∧
      ∃ last f g,
        runFrom (standard.decode oneFile (heldInAll ["a.tsv", "file://a.tsv"])) .empty =
          (.ok f, last) ∧
        runFrom (standard.decode oneFile (heldInOneOf ["a.tsv", "file://a.tsv"])) .empty =
          (.ok g, last) ∧
        ∀ r now, f.apply r now = g.apply r now := by
  have hheld : standard.find? "holdings" = some held := find?_standard .holdings
  have hor : standard.find? "or" = some (combined "or" .or) := find?_standard .or
  have hne : ["a.tsv", "file://a.tsv"] ≠ [] := List.cons_ne_nil _ _
  have hread : (runFrom (standard.decode oneFile (heldInAll ["a.tsv", "file://a.tsv"]))
      .empty).1.isOk = true := by cbv
  obtain ⟨last, ⟨fault, hfault, -⟩ | h⟩ :=
    passes_same_records.2 standard oneFile .empty _ hheld hor hne
  · rw [hfault] at hread
    cases hread
  · exact ⟨hheld, hor, hne, last, h⟩

end Constructors

end Holdings
